/-
Places in a template as a person names them: line and column, both from one.

`Position.advance` reads one character, and a position is where reading from
some origin leads.  Because reading is a fold, a position in a part of a text is
the position in the whole (`ofOffset_drop`), which is what lets a block body be
compiled on its own and still report its errors in the template around it.
-/
import TemplateDirectives.Text.Basic

namespace TemplateDirectives

/-- A line and a column, both counted from one.  Columns count characters. -/
structure Position where
  line : Nat
  column : Nat
  deriving DecidableEq

namespace Position

def start : Position := ⟨1, 1⟩

/-- The place after `c`, when `c` stands at `p`.  A line ends at its newline
only. -/
def advance (p : Position) (c : Char) : Position :=
  if c = '\n' then ⟨p.line + 1, 1⟩ else ⟨p.line, p.column + 1⟩

/-- The position of an offset in a text that begins at `origin`. -/
def ofOffset (origin : Position) (t : Text) (offset : Nat) : Position :=
  (t.take offset).foldl advance origin

def describe (p : Position) : String := s!"line {p.line}, column {p.column}"

/-! ## Laws -/

/-- Reading up to `b` and then `o` further is reading up to `b + o`. -/
theorem ofOffset_drop (origin : Position) (t : Text) (b o : Nat) :
    (origin.ofOffset t b).ofOffset (t.drop b) o = origin.ofOffset t (b + o) := by
  rw [ofOffset, ofOffset, ofOffset, ← List.foldl_append, ← List.take_add]

/-- A position in a stretch is the position in the text around it. -/
theorem ofOffset_of_drop {t s rest : Text} {b o : Nat} (h : t.drop b = s ++ rest)
    (ho : o ≤ s.length) (origin : Position) :
    (origin.ofOffset t b).ofOffset s o = origin.ofOffset t (b + o) := by
  have htake : (s ++ rest).take o = s.take o := List.take_append_of_le_length ho
  rw [← ofOffset_drop, h]
  simp only [ofOffset, htake]

/-- A position counts line breaks, and the characters after the last of them.  Before the first
line break the columns go on from the origin. -/
theorem foldl_advance (origin : Position) (t : Text) : t.foldl advance origin =
    if t.count '\n' = 0 then ⟨origin.line, origin.column + (Text.takeEndWhile (· != '\n') t).length⟩
    else ⟨origin.line + t.count '\n', (Text.takeEndWhile (· != '\n') t).length + 1⟩ := by
  induction hn : t.length generalizing t with
  | zero =>
    rw [List.length_eq_zero_iff.mp hn]
    rfl
  | succ n ih =>
    rcases List.eq_nil_or_concat t with rfl | ⟨u, c, rfl⟩
    · cases hn
    · rw [List.concat_eq_append] at hn ⊢
      rw [List.length_append] at hn
      rw [List.foldl_append, ih u (by simpa using hn), Text.takeEndWhile_concat, List.count_append,
        List.count_singleton]
      -- `c` may end the first line or a later one, or go on with either
      by_cases hfirst : u.count '\n' = 0
      · by_cases hc : c = '\n'
        · simp [advance, hc, hfirst]
        · simp [advance, hc, hfirst, Nat.add_assoc]
      · by_cases hc : c = '\n'
        · simp [advance, hc, hfirst, Nat.add_assoc]
        · simp [advance, hc, hfirst]

theorem foldl_advance_start (t : Text) : t.foldl advance start =
    ⟨t.count '\n' + 1, (Text.takeEndWhile (· != '\n') t).length + 1⟩ := by
  rw [foldl_advance]
  split
  next hfirst => simp [start, hfirst, Nat.add_comm]
  next => simp [start, Nat.add_comm]

end Position
end TemplateDirectives
