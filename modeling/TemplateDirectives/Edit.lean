/-
Edits of a text, applied in one traversal.

An edit replaces a stretch of the text.  Edits are listed from left to right and
do not overlap (`Ordered`).  `Edit.applyAll` copies what lies between them and
never looks at a replacement again, so the outcome does not depend on what the
replacements say.
-/
import TemplateDirectives.Text.Basic

namespace TemplateDirectives

/-- Replace the characters from offset `start` up to `stop`. -/
structure Edit where
  start : Nat
  stop : Nat
  replacement : Text

namespace Edit

/-- Apply edits to the text that begins at `offset`. -/
def applyFrom (offset : Nat) (rest : Text) : List Edit → Text
  | [] => rest
  | e :: es =>
    rest.take (e.start - offset) ++ e.replacement ++
      applyFrom e.stop (rest.drop (e.stop - offset)) es

/-- Apply edits, listed from left to right, to a whole text. -/
def applyAll (t : Text) (es : List Edit) : Text := applyFrom 0 t es

/-- Edits that lie in a text of `bound` characters, from `offset` on, each
beginning where the one before it has ended or later. -/
def Ordered (bound : Nat) : Nat → List Edit → Prop
  | _, [] => True
  | offset, e :: es => offset ≤ e.start ∧ e.start ≤ e.stop ∧ e.stop ≤ bound ∧ Ordered bound e.stop es

/-- Without edits the text stays as it is. -/
@[simp] theorem applyAll_nil (t : Text) : applyAll t [] = t := rfl

end Edit
end TemplateDirectives
