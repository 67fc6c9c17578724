/-
Calls as templates write them: a name, and after it perhaps a list of arguments
in parentheses.

The arguments are opaque code of the host language.  All that is known of them
is where they end: at the parenthesis that closes the first one, not counting
those inside string literals (`splitClosing?`).  When no parenthesis closes the
list, the call has no arguments and ends with its name.
-/
import TemplateDirectives.Directive.Name
import TemplateDirectives.Text.LiteralState

namespace TemplateDirectives
namespace Directive

/-- Cut the text at the parenthesis that closes the one opened before it.
`nested` counts the parentheses that are still open inside, and `s` says whether
a string literal is. -/
def splitClosing? (nested : Nat) (s : LiteralState) : Text → Option (Text × Text)
  | [] => none
  | c :: rest =>
    match s, c, nested with
    | .outside, ')', 0 => some ([], rest)
    | .outside, ')', n + 1 => (splitClosing? n .outside rest).map fun (a, b) => (c :: a, b)
    | .outside, '(', n => (splitClosing? (n + 1) .outside rest).map fun (a, b) => (c :: a, b)
    | s, c, n => (splitClosing? n (s.step c) rest).map fun (a, b) => (c :: a, b)

/-- An argument list: the blanks between the name and the opening parenthesis,
and what the parentheses enclose. -/
structure ArgumentList where
  gap : Text
  inner : Text
  deriving DecidableEq

namespace ArgumentList

def written (l : ArgumentList) : Text := l.gap ++ '(' :: (l.inner ++ [')'])

/-- Read an argument list, after blanks, if it is closed. -/
def read? (t : Text) : Option ArgumentList :=
  match t.dropWhile Text.isBlank with
  | '(' :: rest =>
    (splitClosing? 0 .outside rest).map fun (inner, _) => ⟨t.takeWhile Text.isBlank, inner⟩
  | _ => none

end ArgumentList

/-- A call: a name with the argument list that follows it, if one does. -/
structure Call where
  name : Name
  arguments : Option ArgumentList
  deriving DecidableEq

namespace Call

def written (c : Call) : Text :=
  c.name.written ++ (c.arguments.map ArgumentList.written).getD []

/-- The argument text, empty when there is no argument list. -/
def argumentText (c : Call) : Text := (c.arguments.map ArgumentList.inner).getD []

def read? (t : Text) : Option Call :=
  (Name.read? t).map fun name => ⟨name, ArgumentList.read? (t.drop name.written.length)⟩

end Call

/-! ## Laws -/

/-- The two parts, with the parenthesis between them, are the text. -/
theorem eq_of_splitClosing? {nested : Nat} {s : LiteralState} {t inner after : Text}
    (h : splitClosing? nested s t = some (inner, after)) : t = inner ++ ')' :: after := by
  induction t generalizing nested s inner with
  | nil => simp [splitClosing?] at h
  | cons c rest ih =>
    unfold splitClosing? at h
    split at h
    next => simp_all
    all_goals
      obtain ⟨⟨a, b⟩, hr, he⟩ := Option.map_eq_some_iff.mp h
      obtain ⟨rfl, rfl⟩ : _ :: a = inner ∧ b = after := by simpa using he
      rw [List.cons_append, ← ih hr]

/-- What follows the closing parenthesis has no part in finding it. -/
theorem splitClosing?_append {nested : Nat} {s : LiteralState} {t inner after : Text}
    (h : splitClosing? nested s t = some (inner, after)) (u : Text) :
    splitClosing? nested s (t ++ u) = some (inner, after ++ u) := by
  induction t generalizing nested s inner with
  | nil => simp [splitClosing?] at h
  | cons c rest ih =>
    unfold splitClosing? at h
    rw [List.cons_append]
    unfold splitClosing?
    split at h
    next => simp_all
    all_goals
      obtain ⟨⟨a, b⟩, hr, he⟩ := Option.map_eq_some_iff.mp h
      obtain ⟨rfl, rfl⟩ : _ :: a = inner ∧ b = after := by simpa using he
      simp_all

theorem ArgumentList.written_isPrefix_of_read? {t : Text} {l : ArgumentList}
    (h : ArgumentList.read? t = some l) : l.written <+: t := by
  unfold ArgumentList.read? at h
  split at h
  next rest hd =>
    obtain ⟨⟨inner, after⟩, hr, he⟩ := Option.map_eq_some_iff.mp h
    have hrest := eq_of_splitClosing? hr
    refine ⟨after, ?_⟩
    rw [← he]
    simp only [ArgumentList.written, List.append_assoc, List.cons_append, List.nil_append]
    rw [← hrest, ← hd]
    exact List.takeWhile_append_dropWhile
  next => simp at h

/-- The call stands, as written, at the beginning of the text it was read
from. -/
theorem Call.written_isPrefix_of_read? {t : Text} {c : Call} (h : Call.read? t = some c) :
    c.written <+: t := by
  obtain ⟨name, hn, rfl⟩ := Option.map_eq_some_iff.mp h
  obtain ⟨rest, rfl⟩ := Name.written_isPrefix_of_read? hn
  rw [List.drop_left]
  simp only [Call.written]
  rcases ha : ArgumentList.read? rest with _ | l
  · simp
  · simpa using ArgumentList.written_isPrefix_of_read? ha

theorem Call.name_isPrefix_of_read? {t : Text} {c : Call} (h : Call.read? t = some c) :
    c.name.written <+: t := by
  obtain ⟨name, hn, rfl⟩ := Option.map_eq_some_iff.mp h
  exact Name.written_isPrefix_of_read? hn

end Directive
end TemplateDirectives
