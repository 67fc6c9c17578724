/-
Blank characters, the ones that separate and that trimming removes.

The set is the Unicode property White_Space.  It is larger than the blanks of
ASCII (a no-break space and the line separator are in it) and leaves out the
zero-width space and the byte order mark.
-/
import TemplateDirectives.Text.Basic

namespace TemplateDirectives
namespace Text

/-- The code points of White_Space as ranges with both ends included. -/
def blankRanges : List (Nat × Nat) :=
  [(0x09, 0x0D), (0x20, 0x20), (0x85, 0x85), (0xA0, 0xA0), (0x1680, 0x1680), (0x2000, 0x200A),
    (0x2028, 0x2029), (0x202F, 0x202F), (0x205F, 0x205F), (0x3000, 0x3000)]

/-- Whether a code point lies in one of the ranges. -/
def inRanges (ranges : List (Nat × Nat)) (n : Nat) : Bool :=
  ranges.any fun (first, last) => first ≤ n && n ≤ last

def isBlank (c : Char) : Bool := inRanges blankRanges c.toNat

/-- Blanks that may stand before a block on its line. -/
def isIndent (c : Char) : Bool := c == ' ' || c == '\t'

def trimStart (t : Text) : Text := t.dropWhile isBlank

def trimEnd (t : Text) : Text := dropEndWhile isBlank t

def trim (t : Text) : Text := trimEnd (trimStart t)

/-- Whether the text holds nothing but blanks. -/
def isBlankText (t : Text) : Bool := t.all isBlank

theorem isBlank_of_isIndent {c : Char} (h : isIndent c = true) : isBlank c = true := by
  rcases (by simpa [isIndent] using h : c = ' ' ∨ c = '\t') with rfl | rfl <;> decide

/-- A word character is never blank, so a name ends where blanks begin. -/
theorem isWord_eq_false_of_isBlank {c : Char} (h : isBlank c = true) : isWord c = false := by
  have hr : ∀ n, inRanges blankRanges n = true → n < 33 ∨ 127 < n := by
    intro n hn
    simp [inRanges, blankRanges] at hn
    omega
  have hw : ∀ d : Char, isWord d = true → 33 ≤ d.toNat ∧ d.toNat ≤ 127 := by
    intro d hd
    have halphanum : d.isAlphanum = (decide (d.val ≥ 'A'.val ∧ d.val ≤ 'Z'.val) ||
        (d.val ≥ 'a'.val && d.val ≤ 'z'.val) || (d.val ≥ '0'.val && d.val ≤ '9'.val)) := rfl
    simp [isWord, halphanum, UInt32.le_iff_toNat_le] at hd
    rcases hd with (((⟨h1, h2⟩ | ⟨h1, h2⟩) | ⟨h1, h2⟩)) | rfl
    · have : d.toNat = d.val.toNat := rfl
      omega
    · have : d.toNat = d.val.toNat := rfl
      omega
    · have : d.toNat = d.val.toNat := rfl
      omega
    · decide
  cases hcw : isWord c with
  | false => rfl
  | true =>
    have h1 := hr c.toNat h
    have h2 := hw c hcw
    omega

end Text
end TemplateDirectives
