/-
Lists of arguments.

A comma separates two arguments where no bracket and no string literal is open.  What is
open at a place is read off the text before it (`Nesting.run`).  A piece without separating
commas is atomic, and one behind which nothing is open is closed.  A list whose pieces are
atomic, and all but the last of them closed, can be joined with commas and is cut into the same
pieces again, and every text is joined from just one such list (`pieces_eq_iff`).  So cutting
and joining undo each other (`split_joined`).
-/
import Mathlib.Data.List.Basic
import TemplateDirectives.Directive.Arguments

namespace TemplateDirectives
namespace Directive
namespace Arguments

/-! ## What is open -/

/-- What is open at a place of argument text: a number of brackets, and a string literal. -/
@[ext]
structure Nesting where
  depth : Nat
  literal : LiteralState
  deriving DecidableEq

namespace Nesting

/-- Nothing is open. -/
def top : Nesting := ⟨0, .outside⟩

/-- Brackets count outside of string literals only. -/
def step (n : Nesting) (c : Char) : Nesting :=
  ⟨if n.literal = .outside then depthAfter n.depth c else n.depth, n.literal.step c⟩

def run (n : Nesting) (t : Text) : Nesting := t.foldl step n

/-- Whether a comma separates here. -/
def Separates (n : Nesting) (c : Char) : Prop := n = top ∧ c = ','

/-- The pieces of a text that goes on where this much is open. -/
def pieces (n : Nesting) (t : Text) : List Text := Arguments.pieces n.depth n.literal t

end Nesting

/-- The text leaves nothing open. -/
def IsClosed (t : Text) : Prop := Nesting.top.run t = .top

/-- No comma of the text separates, when it is read on from `n`. -/
def AtomicFrom (n : Nesting) (t : Text) : Prop :=
  ∀ before after, t = before ++ ',' :: after → n.run before ≠ .top

/-- No comma of the text separates. -/
def IsAtomic (t : Text) : Prop := AtomicFrom .top t

/-- The pieces with commas between them. -/
def joined (ps : List Text) : Text := [','].intercalate ps

/-- Pieces that an argument list can be cut into. -/
structure IsCut (ps : List Text) : Prop where
  ne_nil : ps ≠ []
  atomic : ∀ p ∈ ps, IsAtomic p
  closed : ∀ p ∈ ps.dropLast, IsClosed p
  not_blank : ∀ p, ps = [p] → Text.isBlankText p = false

instance : DecidablePred IsClosed := fun t =>
  inferInstanceAs (Decidable (Nesting.top.run t = .top))

/-! ## Cutting, a character at a time -/

namespace Nesting

variable {n : Nesting} {c : Char} {t a b : Text}

theorem step_of_separates (h : n.Separates c) : n.step c = top := by
  obtain ⟨rfl, rfl⟩ := h
  decide

theorem pieces_cons_of_separates (h : n.Separates c) : n.pieces (c :: t) = [] :: top.pieces t := by
  obtain ⟨rfl, rfl⟩ := h
  rw [pieces, Arguments.pieces, if_pos ⟨rfl, rfl, rfl⟩]
  rfl

theorem pieces_cons_eq_match (h : ¬ n.Separates c) :
    n.pieces (c :: t) = match (n.step c).pieces t with
      | [] => [[c]]
      | piece :: more => (c :: piece) :: more := by
  have hsep : ¬ (n.literal = .outside ∧ c = ',' ∧ n.depth = 0) := fun ⟨houtside, hc, hdepth⟩ =>
    h ⟨Nesting.ext hdepth houtside, hc⟩
  rw [pieces, Arguments.pieces, if_neg hsep]
  rfl

theorem pieces_ne_nil (n : Nesting) (t : Text) : n.pieces t ≠ [] := by
  cases t with
  | nil => exact List.cons_ne_nil _ _
  | cons c t =>
    by_cases hsep : n.Separates c
    · rw [pieces_cons_of_separates hsep]
      exact List.cons_ne_nil _ _
    · rw [pieces_cons_eq_match hsep]
      split <;> exact List.cons_ne_nil _ _

theorem pieces_cons (h : ¬ n.Separates c) :
    n.pieces (c :: t) = ((n.step c).pieces t).modifyHead (c :: ·) := by
  obtain ⟨piece, more, hp⟩ := List.exists_cons_of_ne_nil ((n.step c).pieces_ne_nil t)
  rw [pieces_cons_eq_match h, hp]
  rfl

/-- A comma behind which nothing is open cuts the text, whatever stands on either side. -/
theorem pieces_append_comma (h : n.run a = top) :
    n.pieces (a ++ ',' :: b) = n.pieces a ++ top.pieces b := by
  induction a generalizing n with
  | nil => exact pieces_cons_of_separates ⟨h, rfl⟩
  | cons c a ih =>
    have hrun : (n.step c).run a = top := h
    rw [List.cons_append]
    by_cases hsep : n.Separates c
    · rw [step_of_separates hsep] at hrun
      rw [pieces_cons_of_separates hsep, pieces_cons_of_separates hsep, ih hrun, List.cons_append]
    · rw [pieces_cons hsep, pieces_cons hsep, ih hrun]
      obtain ⟨piece, more, hp⟩ := List.exists_cons_of_ne_nil ((n.step c).pieces_ne_nil a)
      rw [hp]
      rfl

theorem atomicFrom_cons :
    AtomicFrom n (c :: t) ↔ ¬ n.Separates c ∧ AtomicFrom (n.step c) t := by
  constructor
  · intro h
    refine ⟨fun ⟨htop, hc⟩ => h [] t (by rw [hc, List.nil_append]) htop, ?_⟩
    rintro before after rfl
    exact h (c :: before) after rfl
  · rintro ⟨hsep, h⟩ before after heq
    cases before with
    | nil => exact fun htop => hsep ⟨htop, (List.cons.inj heq).1⟩
    | cons d before =>
      obtain ⟨rfl, rfl⟩ := List.cons.inj heq
      exact h before after rfl

theorem pieces_eq_singleton_iff : n.pieces t = [t] ↔ AtomicFrom n t := by
  induction t generalizing n with
  | nil => exact iff_of_true rfl fun before after h => by simp at h
  | cons c t ih =>
    rw [atomicFrom_cons]
    by_cases hsep : n.Separates c
    · rw [pieces_cons_of_separates hsep]
      exact iff_of_false (fun h => by simp at h) fun h => h.1 hsep
    · rw [pieces_cons hsep, ← ih, and_iff_right hsep]
      obtain ⟨piece, more, hp⟩ := List.exists_cons_of_ne_nil ((n.step c).pieces_ne_nil t)
      rw [hp, List.modifyHead_cons, List.cons.injEq, List.cons.injEq, List.cons.injEq,
        and_iff_right rfl]

end Nesting

instance : DecidablePred IsAtomic := fun _ => decidable_of_iff _ Nesting.pieces_eq_singleton_iff

/-! ## Joining -/

variable {n : Nesting} {p q t : Text} {ps : List Text}

theorem joined_singleton (p : Text) : joined [p] = p := by
  rw [joined, List.intercalate_singleton]

theorem joined_cons (hps : ps ≠ []) : joined (p :: ps) = p ++ ',' :: joined ps := by
  rw [joined, List.intercalate_cons_of_ne_nil hps, List.append_assoc, List.singleton_append]
  rfl

theorem joined_modifyHead (c : Char) (hps : ps ≠ []) :
    joined (ps.modifyHead (c :: ·)) = c :: joined ps := by
  obtain ⟨p, more, rfl⟩ := List.exists_cons_of_ne_nil hps
  rw [List.modifyHead_cons]
  by_cases hmore : more = []
  · rw [hmore, joined_singleton, joined_singleton]
  · rw [joined_cons hmore, joined_cons hmore, List.cons_append]

/-- Pieces of a text that is read on from `n`: all of them atomic, and nothing open behind any but
the last. -/
inductive Cut : Nesting → List Text → Prop where
  | last {n : Nesting} {p : Text} : AtomicFrom n p → Cut n [p]
  | more {n : Nesting} {p : Text} {ps : List Text} :
      AtomicFrom n p → n.run p = .top → Cut .top ps → Cut n (p :: ps)

theorem Cut.ne_nil (h : Cut n ps) : ps ≠ [] := by
  cases h with
  | last => exact List.cons_ne_nil _ _
  | more => exact List.cons_ne_nil _ _

theorem cut_top_iff : Cut .top ps ↔
    ps ≠ [] ∧ (∀ p ∈ ps, IsAtomic p) ∧ ∀ p ∈ ps.dropLast, IsClosed p := by
  constructor
  · intro h
    generalize hn : Nesting.top = n at h
    induction h with
    | last hp =>
      subst hn
      exact ⟨List.cons_ne_nil _ _, List.forall_mem_singleton.mpr hp, by simp⟩
    | more hp hrun hps ih =>
      subst hn
      obtain ⟨hne, hatomic, hclosed⟩ := ih rfl
      refine ⟨List.cons_ne_nil _ _, List.forall_mem_cons.mpr ⟨hp, hatomic⟩, ?_⟩
      rw [List.dropLast_cons_of_ne_nil hne]
      exact List.forall_mem_cons.mpr ⟨hrun, hclosed⟩
  · rintro ⟨hne, hatomic, hclosed⟩
    induction ps with
    | nil => exact absurd rfl hne
    | cons p ps ih =>
      obtain ⟨hp, hps⟩ := List.forall_mem_cons.mp hatomic
      by_cases hnil : ps = []
      · rw [hnil]
        exact .last hp
      · rw [List.dropLast_cons_of_ne_nil hnil] at hclosed
        obtain ⟨hrun, hclosed⟩ := List.forall_mem_cons.mp hclosed
        exact .more hp hrun (ih hnil hps hclosed)

theorem isCut_iff : IsCut ps ↔ Cut .top ps ∧ ∀ p, ps = [p] → Text.isBlankText p = false := by
  rw [cut_top_iff]
  exact ⟨fun h => ⟨⟨h.ne_nil, h.atomic, h.closed⟩, h.not_blank⟩,
    fun ⟨⟨hne, hatomic, hclosed⟩, hblank⟩ => ⟨hne, hatomic, hclosed, hblank⟩⟩

/-! ## Cutting and joining -/

theorem joined_pieces (n : Nesting) (t : Text) : joined (n.pieces t) = t := by
  induction t generalizing n with
  | nil => exact joined_singleton []
  | cons c t ih =>
    by_cases hsep : n.Separates c
    · rw [Nesting.pieces_cons_of_separates hsep, joined_cons (Nesting.pieces_ne_nil _ _), ih,
        hsep.2, List.nil_append]
    · rw [Nesting.pieces_cons hsep, joined_modifyHead c (Nesting.pieces_ne_nil _ _), ih]

theorem cut_pieces (n : Nesting) (t : Text) : Cut n (n.pieces t) := by
  induction t generalizing n with
  | nil => exact .last (Nesting.pieces_eq_singleton_iff.mp rfl)
  | cons c t ih =>
    by_cases hsep : n.Separates c
    · rw [Nesting.pieces_cons_of_separates hsep]
      exact .more (Nesting.pieces_eq_singleton_iff.mp rfl) hsep.1 (ih .top)
    · rw [Nesting.pieces_cons hsep]
      -- the character goes in front of the first piece, and no comma separates before it
      have hcut := ih (n.step c)
      generalize (n.step c).pieces t = ps at hcut
      cases hcut with
      | last hp => exact .last (Nesting.atomicFrom_cons.mpr ⟨hsep, hp⟩)
      | more hp hrun hps => exact .more (Nesting.atomicFrom_cons.mpr ⟨hsep, hp⟩) hrun hps

theorem pieces_joined (h : Cut n ps) : n.pieces (joined ps) = ps := by
  induction h with
  | last hp => rw [joined_singleton, Nesting.pieces_eq_singleton_iff.mpr hp]
  | more hp hrun hps ih =>
    rw [joined_cons hps.ne_nil, Nesting.pieces_append_comma hrun, ih,
      Nesting.pieces_eq_singleton_iff.mpr hp, List.singleton_append]

/-- A text is cut into the one list of pieces that it is joined from. -/
theorem pieces_eq_iff : n.pieces t = ps ↔ Cut n ps ∧ joined ps = t := by
  constructor
  · rintro rfl
    exact ⟨cut_pieces n t, joined_pieces n t⟩
  · rintro ⟨h, rfl⟩
    exact pieces_joined h

/-! ## Argument lists -/

theorem isBlankText_append_comma (a b : Text) : Text.isBlankText (a ++ ',' :: b) = false := by
  rw [Text.isBlankText, List.all_append, List.all_cons, show Text.isBlank ',' = false by decide,
    Bool.false_and, Bool.and_false]

theorem isBlankText_joined (h : IsCut ps) : Text.isBlankText (joined ps) = false := by
  obtain ⟨p, more, rfl⟩ := List.exists_cons_of_ne_nil h.ne_nil
  by_cases hmore : more = []
  · rw [hmore, joined_singleton]
    exact h.not_blank p (by rw [hmore])
  · rw [joined_cons hmore]
    exact isBlankText_append_comma p _

theorem split_of_not_blank {raw : Text} (h : Text.isBlankText raw = false) :
    split raw = (Nesting.top.pieces raw).map Text.trim := by
  rw [split, h, if_neg Bool.false_ne_true]
  rfl

/-- Splitting gives back the pieces that were joined, without the blanks around them.  Every text
with something in it is joined from pieces in one way only.  A separating comma between two texts
splits them apart. -/
theorem split_joined :
    (∀ ps, IsCut ps → split (joined ps) = ps.map Text.trim) ∧
    (∀ raw, Text.isBlankText raw = false → ∃! ps, IsCut ps ∧ joined ps = raw) ∧
    (∀ a b, Text.isBlankText a = false → Text.isBlankText b = false → IsClosed a →
      split (a ++ ',' :: b) = split a ++ split b) := by
  refine ⟨?split, ?unique, ?append⟩
  case split =>
    intro ps h
    rw [split_of_not_blank (isBlankText_joined h), pieces_joined (isCut_iff.mp h).1]
  case unique =>
    intro raw hraw
    obtain ⟨hcut, hjoined⟩ := pieces_eq_iff.mp (rfl : Nesting.top.pieces raw = _)
    refine ⟨Nesting.top.pieces raw, ⟨isCut_iff.mpr ⟨hcut, ?_⟩, hjoined⟩, ?_⟩
    · intro p hp
      rw [hp, joined_singleton] at hjoined
      rw [hjoined, hraw]
    · intro ps h
      obtain ⟨hps, hraw'⟩ := h
      exact (pieces_eq_iff.mpr ⟨(isCut_iff.mp hps).1, hraw'⟩).symm
  case append =>
    intro a b ha hb hclosed
    rw [split_of_not_blank (isBlankText_append_comma a b), split_of_not_blank ha,
      split_of_not_blank hb, Nesting.pieces_append_comma hclosed, List.map_append]

/-- Any closing bracket closes the last one that was opened, an escaped quote ends no literal, and
one that stays open keeps its commas. -/
theorem split_joined_openLiteral :
    IsCut ["'it\\'s, fine'".toList, " f(a, [b)] ".toList, " \"c, d".toList] ∧
      split "'it\\'s, fine', f(a, [b)] , \"c, d".toList =
        ["'it\\'s, fine'".toList, "f(a, [b)]".toList, "\"c, d".toList] := by
  have h : IsCut ["'it\\'s, fine'".toList, " f(a, [b)] ".toList, " \"c, d".toList] :=
    ⟨by decide, by decide +kernel, by decide +kernel, by simp⟩
  have hjoined : joined ["'it\\'s, fine'".toList, " f(a, [b)] ".toList, " \"c, d".toList] =
      "'it\\'s, fine', f(a, [b)] , \"c, d".toList := by decide +kernel
  refine ⟨h, ?_⟩
  rw [← hjoined, split_joined.1 _ h]
  decide +kernel

end Arguments
end Directive
end TemplateDirectives
