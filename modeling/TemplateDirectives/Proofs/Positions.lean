/-
Positions in texts and in their parts.

A part of a text that is told the position where it begins gives the same positions as the text,
and so do parts of parts, as the bodies of blocks are (`Nested.ofOffset_eq`).  Every character moves
the position forward, so the order of positions is the order of offsets (`ofOffset_before_iff`).
-/
import TemplateDirectives.Proofs.Edits.Finds

namespace TemplateDirectives

open Directive

namespace Position

variable {p q r origin : Position} {t s : Text} {a b base o : Nat}

/-! ## Parts of parts -/

/-- The text `s` lies in `t` from offset `base` on, some bodies deep, and `p` is where it begins by
the reckoning of the text around it.  Each body is a stretch of the text that encloses it. -/
inductive Nested (origin : Position) (t : Text) : Nat → Text → Position → Prop where
  | whole : Nested origin t 0 t origin
  | body {base start stop : Nat} {s : Text} {p : Position} (h : Nested origin t base s p)
      (hspan : start ≤ stop) (hstop : stop ≤ s.length) :
      Nested origin t (base + start) (s.slice start stop) (p.ofOffset s start)

/-- However deep a body lies, its positions are those of the outermost text. -/
theorem Nested.ofOffset_eq (h : Nested origin t base s p) (ho : o ≤ s.length) :
    p.ofOffset s o = origin.ofOffset t (base + o) := by
  induction h generalizing o with
  | whole => rw [Nat.zero_add]
  | @body base start stop s p h hspan hstop ih =>
    have hbody : s.drop start = s.slice start stop ++ s.drop stop := Text.drop_of_slice rfl hspan
    have hlen : (s.slice start stop).length = stop - start := by
      rw [Text.length_slice, Nat.min_eq_left hstop]
    rw [ofOffset_of_drop hbody ho, ih (by omega), Nat.add_assoc]

/-- The body of a closed block is told where it begins in the text of the block. -/
theorem Nested.block (h : Nested origin t base s p) {b : Block} (hb : b ∈ Block.closedBlocks s) :
    Nested origin t (base + b.bodyStart) b.body (p.ofOffset s b.bodyStart) := by
  obtain ⟨cursor, lead, rest, hstands⟩ := Block.exists_stands_of_mem_closedBlocks hb
  have hspan : b.bodyStart ≤ b.bodyStop := Nat.le_add_right _ _
  have hstop : b.bodyStop ≤ s.length :=
    Nat.le_of_lt (Text.lt_length_of_drop hstands.at_ending (by simp [callMarker]))
  have hslice : s.slice b.bodyStart b.bodyStop = b.body := Text.slice_of_drop hstands.at_body
  rw [← hslice]
  exact h.body hspan hstop

/-! ## The order of positions -/

/-- A lower line comes first, and on one line a lower column. -/
def Before (p q : Position) : Prop := p.line < q.line ∨ p.line = q.line ∧ p.column < q.column

instance (p q : Position) : Decidable (p.Before q) := inferInstanceAs (Decidable (_ ∨ _))

theorem Before.irrefl (p : Position) : ¬ p.Before p := by
  rintro (h | ⟨-, h⟩)
  · exact Nat.lt_irrefl _ h
  · exact Nat.lt_irrefl _ h

theorem Before.trans (hpq : p.Before q) (hqr : q.Before r) : p.Before r := by
  unfold Before at *
  omega

theorem before_advance (p : Position) (c : Char) : p.Before (p.advance c) := by
  by_cases hc : c = '\n'
  · rw [advance, if_pos hc]
    exact .inl (Nat.lt_succ_self _)
  · rw [advance, if_neg hc]
    exact .inr ⟨rfl, Nat.lt_succ_self _⟩

theorem before_foldl_advance (ht : t ≠ []) (p : Position) : p.Before (t.foldl advance p) := by
  induction t generalizing p with
  | nil => exact absurd rfl ht
  | cons c t ih =>
    rw [List.foldl_cons]
    by_cases hnil : t = []
    · rw [hnil]
      exact before_advance p c
    · exact (before_advance p c).trans (ih hnil _)

theorem ofOffset_before (hab : a < b) (hb : b ≤ t.length) (origin : Position) :
    (origin.ofOffset t a).Before (origin.ofOffset t b) := by
  have hsplit : origin.ofOffset t b = (origin.ofOffset t a).ofOffset (t.drop a) (b - a) := by
    rw [ofOffset_drop, show a + (b - a) = b by omega]
  rw [hsplit]
  refine before_foldl_advance (fun hnil => ?_) _
  have hlen := congrArg List.length hnil
  rw [List.length_take, List.length_drop, List.length_nil] at hlen
  omega

theorem ofOffset_before_iff (ha : a ≤ t.length) (hb : b ≤ t.length) (origin : Position) :
    (origin.ofOffset t a).Before (origin.ofOffset t b) ↔ a < b := by
  refine ⟨fun h => ?_, fun hab => ofOffset_before hab hb origin⟩
  rcases Nat.lt_trichotomy a b with hlt | rfl | hgt
  · exact hlt
  · exact absurd h (Before.irrefl _)
  · exact absurd (h.trans (ofOffset_before hgt ha origin)) (Before.irrefl _)

theorem ofOffset_eq_iff (ha : a ≤ t.length) (hb : b ≤ t.length) (origin : Position) :
    origin.ofOffset t a = origin.ofOffset t b ↔ a = b := by
  refine ⟨fun h => ?_, congrArg _⟩
  have hlt : ¬ a < b := fun hab => by
    have hbefore := ofOffset_before hab hb origin
    rw [h] at hbefore
    exact Before.irrefl _ hbefore
  have hgt : ¬ b < a := fun hba => by
    have hbefore := ofOffset_before hba ha origin
    rw [h] at hbefore
    exact Before.irrefl _ hbefore
  omega

/-! ## All together -/

/-- For every text and wherever it begins: a position counts the line breaks before the offset and
the characters behind the last of them.  Positions in a part are positions in the whole, also for
parts in parts, as block bodies are.  Offsets and positions come in the same order, and no two
offsets have the same position. -/
theorem ofOffset_composes (origin : Position) (t : Text) :
    (∀ o, origin.ofOffset t o =
      if (t.take o).count '\n' = 0 then
        ⟨origin.line, origin.column + (Text.takeEndWhile (· != '\n') (t.take o)).length⟩
      else ⟨origin.line + (t.take o).count '\n',
        (Text.takeEndWhile (· != '\n') (t.take o)).length + 1⟩) ∧
    (∀ b o, (origin.ofOffset t b).ofOffset (t.drop b) o = origin.ofOffset t (b + o)) ∧
    (∀ base s p, Nested origin t base s p →
      (∀ o, o ≤ s.length → p.ofOffset s o = origin.ofOffset t (base + o)) ∧
      ∀ b ∈ Block.closedBlocks s,
        Nested origin t (base + b.bodyStart) b.body (p.ofOffset s b.bodyStart)) ∧
    ∀ a b, a ≤ t.length → b ≤ t.length →
      ((origin.ofOffset t a).Before (origin.ofOffset t b) ↔ a < b) ∧
      (origin.ofOffset t a = origin.ofOffset t b ↔ a = b) :=
  ⟨fun o => foldl_advance origin (t.take o), ofOffset_drop origin t,
    fun _ _ _ h => ⟨fun _ ho => h.ofOffset_eq ho, fun _ hb => h.block hb⟩,
    fun _ _ ha hb => ⟨ofOffset_before_iff ha hb origin, ofOffset_eq_iff ha hb origin⟩⟩

/-- A body on the first line of a body, both behind characters of several bytes.  Its first line
goes on in the columns of the outermost text, and its second line does not. -/
theorem ofOffset_composes_innerBody :
    Nested ⟨7, 3⟩ "é→ab\ncd".toList 3 "b\nc".toList ⟨7, 6⟩ ∧
      ofOffset ⟨7, 6⟩ "b\nc".toList 1 = ⟨7, 7⟩ ∧ ofOffset ⟨7, 6⟩ "b\nc".toList 3 = ⟨8, 2⟩ ∧
      Before ⟨7, 7⟩ ⟨8, 2⟩ := by
  have houter : Nested ⟨7, 3⟩ "é→ab\ncd".toList 1 "→ab\nc".toList ⟨7, 4⟩ :=
    Nested.whole.body (by decide : 1 ≤ 6) (by decide)
  have hinner : Nested ⟨7, 3⟩ "é→ab\ncd".toList 3 "b\nc".toList ⟨7, 6⟩ :=
    houter.body (by decide : 2 ≤ 5) (by decide)
  obtain ⟨hcount, -, hparts, horder⟩ := ofOffset_composes ⟨7, 3⟩ "é→ab\ncd".toList
  have hparts := (hparts 3 "b\nc".toList ⟨7, 6⟩ hinner).1
  have hfirst : ofOffset ⟨7, 6⟩ "b\nc".toList 1 = ⟨7, 7⟩ := by
    rw [hparts 1 (by decide), hcount]
    decide
  have hsecond : ofOffset ⟨7, 6⟩ "b\nc".toList 3 = ⟨8, 2⟩ := by
    rw [hparts 3 (by decide), hcount]
    decide
  have hbefore := (horder 4 6 (by decide) (by decide)).1.mpr (by decide)
  rw [(hparts 1 (by decide)).symm.trans hfirst, (hparts 3 (by decide)).symm.trans hsecond]
    at hbefore
  exact ⟨hinner, hfirst, hsecond, hbefore⟩

end Position
end TemplateDirectives
