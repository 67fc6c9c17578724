/-
What expansion does to the text between references.

A value without `${` is copied.  In any other value expansion also replaces variables
without braces and takes two dollar signs for one, so that a reference in one place changes
how the rest of the value is read.  `expandField_outside_iff` says in which values the text
outside of the references is copied whatever the environment: in those that hold no
reference, and in those without pairs of dollar signs and without variables that have no
braces.
-/
import Mathlib.Algebra.Order.BigOperators.Group.List
import Mathlib.Algebra.Order.Group.Nat
import TemplateDirectives.Proofs.Variables.Required

namespace TemplateDirectives
namespace Expansion

variable {t s : Text} {env : Environment} {field : String}

/-- When every variable is empty, what is not copied gets shorter. -/
theorem length_expanded_le (p : Piece) : (p.expanded fun _ => some []).length ≤
    (p.substituted fun _ => some []).length := by
  cases p with
  | char c => exact Nat.le_refl _
  | dollars => exact Nat.le_succ _
  | bare name => exact Nat.zero_le _
  | reference inner => exact Nat.le_refl _

theorem length_expanded_dollars_lt : (Piece.dollars.expanded fun _ => some []).length <
    (Piece.dollars.substituted fun _ => some []).length := Nat.lt_succ_self _

theorem length_expanded_bare_lt (name : Text) : ((Piece.bare name).expanded fun _ => some []).length <
    ((Piece.bare name).substituted fun _ => some []).length := Nat.zero_lt_succ _

/-- One piece that is not copied makes the value shorter than it would be with all pieces
copied. -/
theorem flatMap_expanded_ne {p : Piece} (hp : p ∈ pieces t)
    (hlt : (p.expanded fun _ => some []).length < (p.substituted fun _ => some []).length) :
    (pieces t).flatMap (Piece.expanded fun _ => some []) ≠
      (pieces t).flatMap (Piece.substituted fun _ => some []) := by
  intro heq
  have hlengths := congrArg List.length heq
  rw [List.length_flatMap, List.length_flatMap] at hlengths
  have hshorter := List.sum_lt_sum (l := pieces t) (fun p => (p.expanded fun _ => some []).length)
    (fun p => (p.substituted fun _ => some []).length) (fun p _ => length_expanded_le p) ⟨p, hp, hlt⟩
  omega

/-- For every value: the expanded value has the expanded pieces one behind the other, when
an opening stands in the value, and is the value otherwise.  When no dollar signs are
doubled and no variable without braces is set, only the references in braces have changed.
That this holds in every environment says that the value has no opening, or no doubled
dollar signs and no variables without braces. -/
theorem expandField_outside_iff (t : Text) :
    (pieces t).flatMap Piece.written = t ∧
    (∀ env field s, Config.expandField env field (some t) = .ok (some s) →
      s = if opening <:+: t then (pieces t).flatMap (Piece.expanded env) else t) ∧
    (∀ env field s, Config.expandField env field (some t) = .ok (some s) →
      .dollars ∉ pieces t → (∀ name, .bare name ∈ pieces t → env name = none) →
        s = (pieces t).flatMap (Piece.substituted env)) ∧
    ((∀ env field s, Config.expandField env field (some t) = .ok (some s) →
        s = (pieces t).flatMap (Piece.substituted env)) ↔
      ¬ opening <:+: t ∨ .dollars ∉ pieces t ∧ ∀ name, .bare name ∉ pieces t) := by
  have hkept : ∀ env field s, Config.expandField env field (some t) = .ok (some s) →
      .dollars ∉ pieces t → (∀ name, .bare name ∈ pieces t → env name = none) →
        s = (pieces t).flatMap (Piece.substituted env) := by
    intro env field s h hdollars hbare
    rw [(expandField_eq_some_iff.mp h).2]
    split
    next => exact flatMap_expanded_eq_substituted hdollars hbare
    next hopening => exact (flatMap_substituted_of_not_isInfix env hopening).symm
  refine ⟨flatMap_written_pieces t, fun env field s h => (expandField_eq_some_iff.mp h).2, hkept, ?_⟩
  constructor
  · intro h
    by_cases hopening : opening <:+: t
    · have hsame : (pieces t).flatMap (Piece.expanded fun _ => some []) =
          (pieces t).flatMap (Piece.substituted fun _ => some []) :=
        h _ "" _ (expandField_eq_some_iff.mpr ⟨fun _ _ => rfl, (if_pos hopening).symm⟩)
      refine .inr ⟨fun hp => ?_, fun name hp => ?_⟩
      · exact flatMap_expanded_ne hp length_expanded_dollars_lt hsame
      · exact flatMap_expanded_ne hp (length_expanded_bare_lt name) hsame
    · exact .inl hopening
  · rintro (hopening | ⟨hdollars, hbare⟩) env field s h
    · rw [(expandField_eq_some_iff.mp h).2, if_neg hopening,
        flatMap_substituted_of_not_isInfix env hopening]
    · exact hkept env field s h hdollars fun name hp => absurd hp (hbare name)

/-- A variable without braces in front of a reference. -/
def mixedValue : Text := "$A$\x7bB\x7d".toList

def mixedEnvironment : Environment := fun name =>
  if name = ['A'] then some "alpha".toList else if name = ['B'] then some "beta".toList else none

theorem expandField_mixedValue :
    Config.expandField mixedEnvironment Config.sourceField (some mixedValue) =
      .ok (some "alphabeta".toList) ∧
    (pieces mixedValue).flatMap (Piece.substituted mixedEnvironment) = "$Abeta".toList ∧
    Config.expandField mixedEnvironment Config.sourceField (some "$A".toList) =
      .ok (some "$A".toList) ∧
    ¬ ∀ env field t s, Config.expandField env field (some t) = .ok (some s) →
      s = (pieces t).flatMap (Piece.substituted env) := by
  have hexpanded : Config.expandField mixedEnvironment Config.sourceField (some mixedValue) =
      .ok (some "alphabeta".toList) := by decide +kernel
  have hsubstituted : (pieces mixedValue).flatMap (Piece.substituted mixedEnvironment) =
      "$Abeta".toList := by decide +kernel
  refine ⟨hexpanded, hsubstituted, by decide +kernel, fun h => ?_⟩
  have hsame := h _ _ _ _ hexpanded
  rw [hsubstituted] at hsame
  revert hsame
  decide

end Expansion
end TemplateDirectives
