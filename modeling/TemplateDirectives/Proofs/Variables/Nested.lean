/-
Where the check and the expander part.

The check is to find out which variables the expander cannot do without
(`Expansion.Agrees`).  It goes by what stands between an opening and the next closing or
opening, so it finds an opening inside of a default or of a name, and the expander does not
stop there.  It also finds an opening whose dollar sign the expander has read as the second
of a pair.  `expandField_agrees_iff` says of every value when it is refused, what becomes of
its references without default, and in which values the two agree whatever the environment:
those that ask for the same names in both readings.
-/
import TemplateDirectives.Proofs.Variables.Required

namespace TemplateDirectives
namespace Expansion

/-- What the check is for.  A value is refused exactly when the expander lacks a variable, and
every reference without default in a value that is not refused gives way to its variable. -/
structure Agrees (env : Environment) (field : String) (t : Text) : Prop where
  refused : (∃ name, Config.expandField env field (some t) = .error (.unsetVariable field name)) ↔
    ∃ name ∈ neededNames t, env name = none
  replaced : ∀ s before name after, Config.expandField env field (some t) = .ok (some s) →
    pieces t = before ++ .reference name :: after → ¬ defaultMark <:+: name →
      ∃ value, env name = some value ∧
        s = before.flatMap (Piece.expanded env) ++ value ++ after.flatMap (Piece.expanded env)

variable {env : Environment} {field : String} {t s name : Text}

theorem mem_neededNames_iff : name ∈ neededNames t ↔
    .reference name ∈ pieces t ∧ ¬ defaultMark <:+: name := by
  rw [neededNames, List.mem_filterMap]
  constructor
  · rintro ⟨p, hp, hname⟩
    cases p with
    | reference inner =>
      rw [Piece.needed?] at hname
      split at hname
      next => cases hname
      next hmark =>
        cases hname
        exact ⟨hp, hmark⟩
    | char c => cases hname
    | dollars => cases hname
    | bare n => cases hname
  · rintro ⟨hp, hmark⟩
    exact ⟨_, hp, if_neg hmark⟩

theorem reference_of_not_isInfix (env : Environment) (h : ¬ defaultMark <:+: name) :
    reference env name = (env name).getD (Piece.reference name).written := by
  rw [reference, Text.cutAt?_eq_none_iff.mpr h, Piece.written, List.append_assoc]

theorem expandField_eq_unset_iff :
    (∃ name, Config.expandField env field (some t) = .error (.unsetVariable field name)) ↔
      ∃ name, IsRequired t name ∧ env name = none := by
  simp only [← mem_requiredNames_iff, ← exists_expand_eq_error_iff, expandField_eq_error_iff,
    ConfigError.unsetVariable.injEq, true_and]
  constructor
  · rintro ⟨_, name, rfl, h⟩
    exact ⟨_, h⟩
  · rintro ⟨name, h⟩
    exact ⟨name, name, rfl, h⟩

/-- A reference without default gives way to its variable, and stays when that is not set. -/
theorem eq_append_of_expandField {before after : List Piece}
    (h : Config.expandField env field (some t) = .ok (some s))
    (ht : pieces t = before ++ .reference name :: after) (hname : ¬ defaultMark <:+: name) :
    s = before.flatMap (Piece.expanded env) ++ (env name).getD (Piece.reference name).written ++
      after.flatMap (Piece.expanded env) := by
  have hmem : .reference name ∈ pieces t := ht ▸ List.mem_append_right _ List.mem_cons_self
  have hopening : opening <:+: t := (List.prefix_append _ _).isInfix.trans (written_isInfix hmem)
  rw [(expandField_eq_some_iff.mp h).2, if_pos hopening, ht, List.flatMap_append, List.flatMap_cons,
    Piece.expanded, reference_of_not_isInfix env hname, List.append_assoc]

theorem agrees_iff : Agrees env field t ↔
    ((∃ name, IsRequired t name ∧ env name = none) ↔ ∃ name ∈ neededNames t, env name = none) := by
  constructor
  · intro h
    exact expandField_eq_unset_iff.symm.trans h.refused
  · intro h
    refine ⟨expandField_eq_unset_iff.trans h, fun s before name after hs ht hname => ?_⟩
    have hmem : name ∈ neededNames t :=
      mem_neededNames_iff.mpr ⟨ht ▸ List.mem_append_right _ List.mem_cons_self, hname⟩
    -- the value has not been refused, so no needed variable is missing
    have hset : env name ≠ none := fun hnone => by
      obtain ⟨n, hn⟩ : ∃ n, Config.expandField env field (some t) = .error (.unsetVariable field n) :=
        expandField_eq_unset_iff.mpr (h.mpr ⟨name, hmem, hnone⟩)
      rw [hs] at hn
      cases hn
    obtain ⟨value, hvalue⟩ := Option.ne_none_iff_exists'.mp hset
    refine ⟨value, hvalue, ?_⟩
    rw [eq_append_of_expandField hs ht hname, hvalue, Option.getD_some]

/-- Only one variable is not set. -/
def allBut (name : Text) : Environment := fun n => if n = name then none else some []

theorem allBut_eq_none_iff {n : Text} : allBut name n = none ↔ n = name := by
  rw [allBut]
  split <;> simp_all

theorem forall_agrees_iff : (∀ env field, Agrees env field t) ↔
    ∀ name, IsRequired t name ↔ name ∈ neededNames t := by
  constructor
  · intro h name
    have hname := agrees_iff.mp (h (allBut name) "")
    simp only [allBut_eq_none_iff] at hname
    simpa using hname
  · intro h env field
    rw [agrees_iff]
    simp only [h]

/-- For every value: it is refused exactly when a variable that is required is not set, where
the required variables are the innermost references without default.  In a value that is
not refused, a reference without default that the expander reads gives way to its variable,
and is left as it is written when that is not set.  The check serves its purpose in an
environment just if the two readings lack a variable in the same case, and in all
environments just if they ask for the same variables; so it does when no opening stands inside
of a reference or uses the second of a pair of dollar signs. -/
theorem expandField_agrees_iff (t : Text) :
    (∀ env field,
      (∃ name, Config.expandField env field (some t) = .error (.unsetVariable field name)) ↔
        ∃ name, IsRequired t name ∧ env name = none) ∧
    (∀ env field s before name after, Config.expandField env field (some t) = .ok (some s) →
      pieces t = before ++ .reference name :: after → ¬ defaultMark <:+: name →
        s = before.flatMap (Piece.expanded env) ++ (env name).getD (Piece.reference name).written ++
          after.flatMap (Piece.expanded env)) ∧
    (∀ env field, Agrees env field t ↔
      ((∃ name, IsRequired t name ∧ env name = none) ↔ ∃ name ∈ neededNames t, env name = none)) ∧
    ((∀ env field, Agrees env field t) ↔ ∀ name, IsRequired t name ↔ name ∈ neededNames t) ∧
    (Unnested (pieces t) → ∀ env field, Agrees env field t) := by
  refine ⟨fun env field => expandField_eq_unset_iff,
    fun env field s before name after => eq_append_of_expandField, fun env field => agrees_iff,
    forall_agrees_iff, fun h => forall_agrees_iff.mpr fun name => ?_⟩
  rw [← mem_requiredNames_iff, requiredNames_eq_neededNames h]

/-- A reference in the default of another. -/
def nestedValue : Text := "$\x7bA:-$\x7bB\x7d\x7d".toList

def nestedEnvironment : Environment := fun name =>
  if name = ['A'] then some "alpha".toList else none

/-- The check asks for the variable in the default, and the expander needs none. -/
theorem expandField_nestedValue :
    Config.expandField nestedEnvironment Config.sourceField (some nestedValue) =
      .error (.unsetVariable Config.sourceField ['B']) ∧
    neededNames nestedValue = [] ∧
    (pieces nestedValue).flatMap (Piece.expanded nestedEnvironment) = "alpha\x7d".toList ∧
    ¬ Agrees nestedEnvironment Config.sourceField nestedValue := by
  have hrefused : Config.expandField nestedEnvironment Config.sourceField (some nestedValue) =
      .error (.unsetVariable Config.sourceField ['B']) := by decide +kernel
  have hneeded : neededNames nestedValue = [] := by decide +kernel
  refine ⟨hrefused, hneeded, by decide +kernel, fun h => ?_⟩
  obtain ⟨name, hname, -⟩ := h.refused.mp ⟨_, hrefused⟩
  rw [hneeded] at hname
  cases hname

end Expansion
end TemplateDirectives
