/-
Readings of argument text, for handlers that want single values.

`split` cuts at the commas that lie outside string literals and brackets.
Brackets of the three kinds are counted together, and a closing one that nothing
opened is passed over.  `unquote` takes off one pair of quotes, and `fieldName?`
is the first argument without its quotes and its array suffix.
-/
import TemplateDirectives.Text.Blank
import TemplateDirectives.Text.LiteralState

namespace TemplateDirectives
namespace Directive
namespace Arguments

/-- The number of open brackets after a character outside string literals. -/
def depthAfter (depth : Nat) (c : Char) : Nat :=
  if c = '(' ∨ c = '[' ∨ c = '{' then depth + 1
  else if c = ')' ∨ c = ']' ∨ c = '}' then depth - 1
  else depth

/-- The pieces between the commas that separate, untrimmed.  There is one more
than there are such commas. -/
def pieces (depth : Nat) (s : LiteralState) : Text → List Text
  | [] => [[]]
  | c :: rest =>
    if s = .outside ∧ c = ',' ∧ depth = 0 then [] :: pieces 0 .outside rest
    else
      let depth := if s = .outside then depthAfter depth c else depth
      match pieces depth (s.step c) rest with
      | [] => [[c]]
      | piece :: more => (c :: piece) :: more

/-- The arguments of a list, each without the blanks around it.  A blank text
has none. -/
def split (raw : Text) : List Text :=
  if Text.isBlankText raw then [] else (pieces 0 .outside raw).map Text.trim

/-- What stands between the quotes, if `quote` stands at both ends. -/
def between? (quote : Char) (t : Text) : Option Text :=
  match t with
  | [] => none
  | c :: rest =>
    if c = quote ∧ rest.getLast? = some quote then some rest.dropLast else none

/-- The text without blanks around it and without one pair of quotes. -/
def unquote (t : Text) : Text :=
  let trimmed := Text.trim t
  match between? '\'' trimmed with
  | some inner => inner
  | none => (between? '"' trimmed).getD trimmed

/-- The suffix that names of array fields carry. -/
def arraySuffix : Text := ['[', ']']

/-- A field's name without the array suffix. -/
def stripArraySuffix (name : Text) : Text :=
  if arraySuffix.isSuffixOf name then name.take (name.length - arraySuffix.length) else name

/-- The field that the first argument names. -/
def fieldName? (raw : Text) : Option Text :=
  match (split raw).head? with
  | none => none
  | some first =>
    let name := stripArraySuffix (unquote first)
    if name = [] then none else some name

end Arguments
end Directive
end TemplateDirectives
