/-
Templates as trees of markup.

A template is plain text, short calls and blocks in any order, and the body of a
block is such a sequence again.  `Markup.written` writes a tree down, and
`Markup.WellFormed` says which trees are meant to be read back from their text:
names that no reader confuses, argument lists that close where they are written
to, every block alone on its line, and no block inside another whose end marker
its own would be.

A block's opening stands behind `indent`, and `lead` is what separates its colon
from its body.  Both are pieces of the tree because neither belongs to the text
of a level: a block is told its indentation, and a body begins behind its blanks.
-/
import TemplateDirectives.Compiler.Basic

namespace TemplateDirectives

open Directive

/-! ## Names and arguments -/

namespace Directive
namespace Name

def isNameChar (c : Char) : Bool := isQualifierChar c || c == ':'

/-- A method, with or without a qualifier, that is no end marker's name. -/
def isProper (n : Name) : Bool :=
  n.qualifier.all (fun q => q ≠ [] && q.all isQualifierChar) && n.method ≠ [] &&
    n.method.all Text.isWord && !n.beginsWithEnd

/-- Whether `n` is written like `outer`, or like `outer` with a colon or a backslash
behind it.  The end marker of such a name would end a block named `outer`. -/
def isReadAs (outer n : Name) : Bool :=
  n.written == outer.written || (outer.written ++ [':']).isPrefixOf n.written ||
    (outer.written ++ ['\\']).isPrefixOf n.written

end Name

/-- A call with the arguments in parentheses right behind the name. -/
def Call.applied (name : Name) (arguments : Text) : Call := ⟨name, some ⟨[], arguments⟩⟩

/-- Argument text whose own parenthesis is the one that closes it. -/
def ClosesItself (arguments : Text) : Prop :=
  splitClosing? 0 .outside (arguments ++ [')']) = some (arguments, [])

instance (arguments : Text) : Decidable (ClosesItself arguments) :=
  inferInstanceAs (Decidable (_ = _))

end Directive

/-! ## Trees -/

/-- The pieces of a template from left to right. -/
inductive Markup where
  | nil
  | text (s : Text) (rest : Markup)
  | call (name : Name) (arguments : Text) (rest : Markup)
  | block (indent : Text) (name : Name) (arguments lead : Text) (body rest : Markup)

namespace Markup

def written : Markup → Text
  | nil => []
  | text s rest => s ++ rest.written
  | call name arguments rest => callMarker ++ ((Call.applied name arguments).written ++ rest.written)
  | block indent name arguments lead body rest =>
    indent ++ (callMarker ++ ((Call.applied name arguments).written ++ ':' :: (lead ++
      (body.written ++ (callMarker ++ (Name.endWord ++ (name.written ++ rest.written)))))))

/-- Where the body of a block begins whose line begins at `offset`. -/
def bodyOffset (offset : Nat) (indent : Text) (name : Name) (arguments lead : Text) : Nat :=
  offset + indent.length + callMarker.length + (Call.applied name arguments).written.length + 1 +
    lead.length

def endOffset (offset : Nat) (indent : Text) (name : Name) (arguments lead : Text)
    (body : Markup) : Nat :=
  bodyOffset offset indent name arguments lead + body.written.length + callMarker.length +
    Name.endWord.length + name.written.length

/-- The short calls, with those in bodies. -/
def calls : Markup → List (Name × Text)
  | nil => []
  | text _ rest => rest.calls
  | call name arguments rest => (name, arguments) :: rest.calls
  | block _ _ _ _ body rest => body.calls ++ rest.calls

/-- The names of the blocks, with those in bodies. -/
def blockNames : Markup → List Name
  | nil => []
  | text _ rest => rest.blockNames
  | call _ _ rest => rest.blockNames
  | block _ name _ _ body rest => name :: (body.blockNames ++ rest.blockNames)

/-- The number of blocks that lie inside one another. -/
def nesting : Markup → Nat
  | nil => 0
  | text _ rest => rest.nesting
  | call _ _ rest => rest.nesting
  | block _ _ _ _ body rest => max (body.nesting + 1) rest.nesting

/-- What may follow a character `before` of the same level, or begin a level when
there is none. -/
def WellFormedAfter : (before : Option Char) → Markup → Prop
  | _, nil => True
  | before, text s rest => '@' ∉ s ∧ rest.WellFormedAfter (s.getLast?.or before)
  | before, call name arguments rest =>
    name.isProper = true ∧ '@' ∉ arguments ∧ ClosesItself arguments ∧
      before.any Text.isWord = false ∧ rest.written.head? ≠ some ':' ∧
      rest.WellFormedAfter (some ')')
  | before, block indent name arguments lead body rest =>
    name.isProper = true ∧ '@' ∉ arguments ∧ ClosesItself arguments ∧
      before.all (· == '\n') = true ∧ indent.all Text.isIndent = true ∧
      lead.all Text.isBlank = true ∧ body.written.head?.any Text.isBlank = false ∧
      body.WellFormedAfter none ∧ (∀ n ∈ body.blockNames, name.isReadAs n = false) ∧
      rest.written.head?.any Name.isNameChar = false ∧ rest.WellFormedAfter name.written.getLast?

/-- A template whose text is read back piece by piece. -/
def WellFormed (m : Markup) : Prop := m.WellFormedAfter none

instance decidableWellFormedAfter : (before : Option Char) → (m : Markup) →
    Decidable (m.WellFormedAfter before)
  | _, nil => inferInstanceAs (Decidable True)
  | before, text s rest =>
    have := decidableWellFormedAfter (s.getLast?.or before) rest
    inferInstanceAs (Decidable (_ ∧ _))
  | _, call _ _ rest =>
    have := decidableWellFormedAfter (some ')') rest
    inferInstanceAs (Decidable (_ ∧ _))
  | _, block _ name _ _ body rest =>
    have := decidableWellFormedAfter none body
    have := decidableWellFormedAfter name.written.getLast? rest
    inferInstanceAs (Decidable (_ ∧ _))

instance (m : Markup) : Decidable m.WellFormed := decidableWellFormedAfter none m

end Markup
end TemplateDirectives
