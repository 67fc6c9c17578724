/-
Names of directives as templates write them.

A name is a method, with or without a qualifier in front: `token`,
`Forms::field`, `App\Html::field`.  `Name.read?` reads the longest name at the
beginning of a text and `Name.written` writes it back, and
`written_isPrefix_of_read?` says that reading takes exactly what was written.
-/
import TemplateDirectives.Text.Blank

namespace TemplateDirectives
namespace Directive

/-- A name with the qualifier it was written with, if any. -/
structure Name where
  qualifier : Option Text
  method : Text
  deriving DecidableEq

namespace Name

def separator : Text := [':', ':']

/-- Characters of a qualifier: those of a method, and the backslash between the
parts of a namespace. -/
def isQualifierChar (c : Char) : Bool := Text.isWord c || c == '\\'

/-- The name as it stands in the template. -/
def written (n : Name) : Text :=
  match n.qualifier with
  | none => n.method
  | some q => q ++ separator ++ n.method

/-- Read a qualified name: a qualifier, the separator and a method, none of
them empty. -/
def readQualified? (t : Text) : Option Name :=
  let qualifier := t.takeWhile isQualifierChar
  match Text.after? separator (t.dropWhile isQualifierChar) with
  | none => none
  | some rest =>
    let method := rest.takeWhile Text.isWord
    if qualifier = [] ∨ method = [] then none else some ⟨some qualifier, method⟩

/-- Read a plain name, a method alone. -/
def readPlain? (t : Text) : Option Name :=
  let method := t.takeWhile Text.isWord
  if method = [] then none else some ⟨none, method⟩

/-- Read the name at the beginning of the text.  A qualified reading wins, since
it is the longer one. -/
def read? (t : Text) : Option Name :=
  (readQualified? t).or (readPlain? t)

/-- The word that makes a name an end marker. -/
def endWord : Text := ['e', 'n', 'd']

/-- Names that begin like an end marker never call anything. -/
def beginsWithEnd (n : Name) : Bool := endWord.isPrefixOf n.written

/-! ## Laws -/

theorem written_isPrefix_of_readQualified? {t : Text} {n : Name} (h : readQualified? t = some n) :
    n.written <+: t := by
  unfold readQualified? at h
  simp only at h
  split at h
  next => simp at h
  next rest hr =>
    split at h
    next => simp at h
    next =>
      rw [← Option.some.inj h]
      have hsplit : t = t.takeWhile isQualifierChar ++ (separator ++ rest) := by
        rw [← Text.after?_eq_some.mp hr, List.takeWhile_append_dropWhile]
      have hrest : rest = rest.takeWhile Text.isWord ++ rest.dropWhile Text.isWord :=
        List.takeWhile_append_dropWhile.symm
      refine ⟨rest.dropWhile Text.isWord, ?_⟩
      simp only [written, List.append_assoc]
      rw [← hrest]
      exact hsplit.symm

theorem written_isPrefix_of_readPlain? {t : Text} {n : Name} (h : readPlain? t = some n) :
    n.written <+: t := by
  unfold readPlain? at h
  simp only at h
  split at h
  next => simp at h
  next =>
    rw [← Option.some.inj h]
    exact List.takeWhile_prefix _

/-- The name stands, as written, at the beginning of the text it was read
from. -/
theorem written_isPrefix_of_read? {t : Text} {n : Name} (h : read? t = some n) :
    n.written <+: t := by
  rcases hq : readQualified? t with _ | m
  · rw [read?, hq, Option.none_or] at h
    exact written_isPrefix_of_readPlain? h
  · rw [read?, hq, Option.some_or] at h
    rw [← Option.some.inj h]
    exact written_isPrefix_of_readQualified? hq

theorem beginsWithEnd_of_written {n : Name} {y : Text} (h : n.written = endWord ++ y) :
    n.beginsWithEnd = true := by
  rw [beginsWithEnd, h, List.isPrefixOf_iff_prefix]
  exact List.prefix_append _ _

/-- A name that is read where the end word stands begins with it. -/
theorem beginsWithEnd_of_read? {x : Text} {n : Name} (h : read? (endWord ++ x) = some n) :
    n.beginsWithEnd = true := by
  have htake : ∀ p : Char → Bool, (∀ c ∈ endWord, p c = true) →
      (endWord ++ x).takeWhile p = endWord ++ x.takeWhile p :=
    fun p hp => List.takeWhile_append_of_pos hp
  rw [read?, Option.or_eq_some_iff] at h
  rcases h with h | ⟨-, h⟩
  · unfold readQualified? at h
    simp only [htake isQualifierChar (List.all_eq_true.mp rfl)] at h
    split at h
    next => simp at h
    next rest hr =>
      split at h
      next => simp at h
      next =>
        rw [← Option.some.inj h]
        refine beginsWithEnd_of_written (y := x.takeWhile isQualifierChar ++ (separator ++
          rest.takeWhile Text.isWord)) ?_
        simp only [written, List.append_assoc]
  · unfold readPlain? at h
    simp only [htake Text.isWord (List.all_eq_true.mp rfl)] at h
    split at h
    next => simp at h
    next =>
      rw [← Option.some.inj h]
      exact beginsWithEnd_of_written rfl

end Name
end Directive
end TemplateDirectives
