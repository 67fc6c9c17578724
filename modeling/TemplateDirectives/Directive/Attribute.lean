/-
Boolean attributes: `name="@boolAttr(expression)"`.

The directive is the whole value of the attribute, blanks aside, and the quote
that opened the value closes it.  The search looks for the marker.  From there
the beginning of the attribute is read backwards (`Head`), and its value
forwards (`Value`).  The expression ends at the first closing parenthesis that
the closing quote follows.
-/
import TemplateDirectives.Text.Blank
import TemplateDirectives.Text.Search

namespace TemplateDirectives
namespace Directive

def attributeMarker : Text := ['@', 'b', 'o', 'o', 'l', 'A', 't', 't', 'r']

namespace Attribute

def isNameChar (c : Char) : Bool := Text.isWord c || c == '\\' || c == '-'

/-- The attribute up to its marker: the name, the equals sign and the opening
quote, with the blanks between them. -/
structure Head where
  name : Text
  beforeEquals : Text
  afterEquals : Text
  quote : Char
  afterQuote : Text

namespace Head

def written (h : Head) : Text :=
  h.name ++ h.beforeEquals ++ '=' :: (h.afterEquals ++ h.quote :: h.afterQuote)

/-- Read a head that ends where `backwards` begins.  The text before the marker
is given in reverse. -/
def readBack? (backwards : Text) : Option Head :=
  match backwards.dropWhile Text.isBlank with
  | [] => none
  | quote :: rest =>
    if quote ≠ '"' ∧ quote ≠ '\'' then none
    else
      match rest.dropWhile Text.isBlank with
      | '=' :: beforeSign =>
        let unblanked := beforeSign.dropWhile Text.isBlank
        let name := unblanked.takeWhile isNameChar
        if name = [] then none
        else some {
          name := name.reverse
          beforeEquals := (beforeSign.takeWhile Text.isBlank).reverse
          afterEquals := (rest.takeWhile Text.isBlank).reverse
          quote := quote
          afterQuote := (backwards.takeWhile Text.isBlank).reverse }
      | _ => none

end Head

/-- The attribute from its marker to the closing quote. -/
structure Value where
  gap : Text
  expression : Text
  beforeQuote : Text

namespace Value

def written (quote : Char) (v : Value) : Text :=
  attributeMarker ++ v.gap ++ '(' :: (v.expression ++ ')' :: (v.beforeQuote ++ [quote]))

/-- Cut the text at the first closing parenthesis that, blanks aside, the quote
follows: what stands before it, and the blanks after it. -/
def splitClosing? (quote : Char) : Text → Option (Text × Text)
  | [] => none
  | c :: rest =>
    if c = ')' ∧ (rest.dropWhile Text.isBlank).head? = some quote then
      some ([], rest.takeWhile Text.isBlank)
    else (splitClosing? quote rest).map fun (expression, gap) => (c :: expression, gap)

/-- Read the value whose marker begins the text. -/
def read? (quote : Char) (t : Text) : Option Value :=
  match Text.after? attributeMarker t with
  | none => none
  | some afterMarker =>
    match afterMarker.dropWhile Text.isBlank with
    | '(' :: rest =>
      (splitClosing? quote rest).map fun (expression, gap) =>
        ⟨afterMarker.takeWhile Text.isBlank, expression, gap⟩
    | _ => none

end Value
end Attribute

structure Attribute where
  marker : Nat
  /-- Blanks right before the name that no earlier find has taken. -/
  blanks : Text
  head : Attribute.Head
  value : Attribute.Value

namespace Attribute

def nameStart (a : Attribute) : Nat := a.marker - a.head.written.length

/-- Where the replaced stretch begins. -/
def start (a : Attribute) : Nat := a.nameStart - a.blanks.length

def stop (a : Attribute) : Nat := a.marker + (a.value.written a.head.quote).length

/-- Read the attribute whose marker stands at `offset`, where `rest` begins.
Nothing before `cursor` belongs to it, but a word character there still joins
the name. -/
def at? (t : Text) (cursor offset : Nat) (rest : Text) : Option Attribute :=
  if !attributeMarker.isPrefixOf rest then none
  else
    match Head.readBack? (t.slice cursor offset).reverse with
    | none => none
    | some head =>
      let nameStart := offset - head.written.length
      if (t.before? nameStart).any Text.isWord then none
      else (Value.read? head.quote rest).map fun value => {
        marker := offset
        blanks := Text.takeEndWhile Text.isBlank (t.slice cursor nameStart)
        head := head
        value := value }

/-- The attribute of the leftmost marker at `cursor` or later that has one. -/
def find? (t : Text) (cursor : Nat) : Option Attribute :=
  Text.firstMatch (at? t cursor) cursor (t.drop cursor)

/-! ## Progress of the search -/

theorem Head.written_isSuffix_of_readBack? {backwards : Text} {head : Head}
    (h : Head.readBack? backwards = some head) : head.written <:+ backwards.reverse := by
  unfold Head.readBack? at h
  split at h
  next => simp at h
  next quote rest hq =>
    split at h
    next => simp at h
    next =>
      split at h
      next beforeSign hs =>
        simp only at h
        split at h
        next => simp at h
        next =>
          rw [← Option.some.inj h]
          have h1 : backwards = backwards.takeWhile Text.isBlank ++ quote :: rest := by
            rw [← hq, List.takeWhile_append_dropWhile]
          have h2 : rest = rest.takeWhile Text.isBlank ++ '=' :: beforeSign := by
            rw [← hs, List.takeWhile_append_dropWhile]
          have h3 : beforeSign = beforeSign.takeWhile Text.isBlank
              ++ beforeSign.dropWhile Text.isBlank := List.takeWhile_append_dropWhile.symm
          have h4 : beforeSign.dropWhile Text.isBlank
              = (beforeSign.dropWhile Text.isBlank).takeWhile isNameChar
                ++ (beforeSign.dropWhile Text.isBlank).dropWhile isNameChar :=
            List.takeWhile_append_dropWhile.symm
          refine ⟨((beforeSign.dropWhile Text.isBlank).dropWhile isNameChar).reverse, ?_⟩
          simp only [Head.written]
          conv => rhs; rw [h1, h2, h3, h4]
          simp only [List.reverse_append, List.reverse_cons, List.append_assoc,
            List.cons_append, List.nil_append]
      next => simp at h

theorem length_head_le {t : Text} {cursor offset : Nat} {head : Head}
    (h : Head.readBack? (t.slice cursor offset).reverse = some head) :
    head.written.length ≤ offset - cursor := by
  have hs := (Head.written_isSuffix_of_readBack? h).length_le
  rw [List.reverse_reverse, Text.length_slice] at hs
  omega

theorem marker_of_at? {t rest : Text} {cursor offset : Nat} {a : Attribute}
    (h : at? t cursor offset rest = some a) :
    a.marker = offset ∧ a.head.written.length ≤ offset - cursor := by
  unfold at? at h
  split at h
  next => simp at h
  next =>
    split at h
    next => simp at h
    next head hh =>
      simp only at h
      split at h
      next => simp at h
      next =>
        obtain ⟨value, _, rfl⟩ := Option.map_eq_some_iff.mp h
        exact ⟨rfl, length_head_le hh⟩

/-- A find lies at the cursor or later, and inside the text. -/
theorem nameStart_of_find? {t : Text} {cursor : Nat} {a : Attribute}
    (h : find? t cursor = some a) :
    cursor ≤ a.nameStart ∧ a.nameStart ≤ a.marker ∧ a.marker < t.length := by
  obtain ⟨k, hk, ha⟩ := Text.exists_of_firstMatch h
  have hm := marker_of_at? ha
  rw [List.length_drop] at hk
  simp only [nameStart]
  omega

theorem marker_lt_stop (a : Attribute) : a.marker < a.stop := by
  simp only [stop, Value.written, attributeMarker, List.length_append, List.length_cons]
  omega

theorem progress {t : Text} (cursor : Nat) (a : Attribute) (h : find? t cursor = some a) :
    cursor < a.stop ∧ cursor < t.length := by
  have := nameStart_of_find? h
  have := a.marker_lt_stop
  omega

/-- All boolean attributes at `cursor` or later, from left to right. -/
def all (t : Text) (cursor : Nat) : List Attribute :=
  Text.scanAll (find? t) stop t.length progress cursor

end Attribute
end Directive
end TemplateDirectives
