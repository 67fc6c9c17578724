/-
Offsets in the UTF-8 encoding of a text.

The library counts characters.  Programs that exchange offsets with others count
the bytes of the encoding, and the two counts are translated here.
-/
import TemplateDirectives.Text.Basic

namespace TemplateDirectives
namespace Text

/-- The number of bytes that encode the text. -/
def utf8Length : Text → Nat
  | [] => 0
  | c :: rest => c.utf8Size + utf8Length rest

/-- The bytes before a character offset. -/
def toUtf8Offset (t : Text) (offset : Nat) : Nat := utf8Length (t.take offset)

/-- The characters that begin before a byte offset. -/
def ofUtf8Offset : Text → Nat → Nat
  | [], _ => 0
  | c :: rest, bytes => if bytes = 0 then 0 else 1 + ofUtf8Offset rest (bytes - c.utf8Size)

@[simp] theorem utf8Length_append (t u : Text) :
    utf8Length (t ++ u) = utf8Length t + utf8Length u := by
  induction t with
  | nil => simp [utf8Length]
  | cons c rest ih => simp [utf8Length, ih, Nat.add_assoc]

/-- The encoding of a text is as long as said. -/
theorem utf8ByteSize_ofList (t : Text) : (String.ofList t).utf8ByteSize = utf8Length t := by
  induction t with
  | nil => rfl
  | cons c rest ih =>
    rw [String.ofList_cons, String.utf8ByteSize_append, String.utf8ByteSize_singleton, ih]
    rfl

/-- No offset splits the encoding of a character. -/
theorem isValid_toUtf8Offset (t : Text) (offset : Nat) :
    String.Pos.Raw.IsValid (String.ofList t) ⟨toUtf8Offset t offset⟩ := by
  rw [String.Pos.Raw.isValid_iff_exists_append]
  refine ⟨String.ofList (t.take offset), String.ofList (t.drop offset), ?_, ?_⟩
  · rw [← String.ofList_append, List.take_append_drop]
  · rw [String.rawEndPos, utf8ByteSize_ofList]
    rfl

/-- Translating there and back gives the offset again. -/
theorem ofUtf8Offset_toUtf8Offset {t : Text} {offset : Nat} (h : offset ≤ t.length) :
    ofUtf8Offset t (toUtf8Offset t offset) = offset := by
  induction t generalizing offset with
  | nil =>
    simp at h
    simp [h, ofUtf8Offset]
  | cons c rest ih =>
    cases offset with
    | zero => simp [toUtf8Offset, utf8Length, ofUtf8Offset]
    | succ n =>
      have hc : c.utf8Size ≠ 0 := by
        have := c.utf8Size_pos
        omega
      have hn : n ≤ rest.length := by simpa using h
      simp only [toUtf8Offset, List.take_succ_cons, utf8Length, ofUtf8Offset]
      rw [if_neg (by omega), Nat.add_sub_cancel_left]
      have := ih hn
      rw [toUtf8Offset] at this
      omega

end Text
end TemplateDirectives
