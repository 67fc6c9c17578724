/-
The three rules that turn directives into text of the host language.

Each rule lists the directives of its kind, makes an edit of every one, and
applies the edits together.  The rules for attributes and short calls pass over
the bodies of closed blocks (`attributesOutsideBodies`, `callsOutsideBodies`): a
body is compiled once, by the rule for blocks, which is given the means to do so
as `nested`.
-/
import TemplateDirectives.Compiler.Context
import TemplateDirectives.Directive.Attribute
import TemplateDirectives.Directive.Block
import TemplateDirectives.Edit

namespace TemplateDirectives

open Directive

inductive Rule where
  | attributes
  | shortCalls
  | blocks
  deriving DecidableEq

namespace Rule

/-- The rules in the order in which a template goes through them. -/
def all : List Rule := [attributes, shortCalls, blocks]

def name : Rule → Text
  | attributes => "bool-attr".toList
  | shortCalls => "short-call".toList
  | blocks => "block".toList

/-! ## Boolean attributes -/

/-- After an attribute in a body the search goes on behind the body. -/
def nextAttribute (closed : List Block) (a : Attribute) : Nat :=
  Block.resume closed a.nameStart a.stop

theorem attribute_progress {t : Text} (closed : List Block) (cursor : Nat) (a : Attribute)
    (h : Attribute.find? t cursor = some a) :
    cursor < nextAttribute closed a ∧ cursor < t.length := by
  obtain ⟨hstop, hlength⟩ := Attribute.progress cursor a h
  exact ⟨Block.lt_resume (Attribute.nameStart_of_find? h).1 hstop, hlength⟩

/-- The boolean attributes of a text that lie in no body of a closed block. -/
def attributesOutsideBodies (t : Text) : List Attribute :=
  let closed := Block.closedBlocks t
  (Text.scanAll (Attribute.find? t) (nextAttribute closed) t.length (attribute_progress closed)
    0).filter fun a => (Block.around? closed a.nameStart).isNone

/-- The attribute's name, printed when its condition holds. -/
def attributeEdit (cx : Context) (a : Attribute) : Edit :=
  ⟨a.start, a.stop,
    cx.dialect.host.conditional (Text.trim a.value.expression) (a.blanks ++ a.head.name)⟩

def applyAttributes (cx : Context) (t : Text) : Text :=
  Edit.applyAll t ((attributesOutsideBodies t).map (attributeEdit cx))

/-! ## Short calls -/

/-- After a call in a body the search goes on behind the body. -/
def nextCall (closed : List Block) (c : ShortCall) : Nat :=
  Block.resume closed c.marker c.stop

theorem call_progress {t : Text} (closed : List Block) (cursor : Nat) (c : ShortCall)
    (h : ShortCall.find? t cursor = some c) :
    cursor < nextCall closed c ∧ cursor < t.length := by
  obtain ⟨hstop, hlength⟩ := ShortCall.progress cursor c h
  exact ⟨Block.lt_resume (ShortCall.marker_of_find? h).1 hstop, hlength⟩

/-- The short calls of a text that lie in no body of a closed block. -/
def callsOutsideBodies (t : Text) : List ShortCall :=
  let closed := Block.closedBlocks t
  (Text.scanAll (ShortCall.find? t) (nextCall closed) t.length (call_progress closed)
    0).filter fun c => (Block.around? closed c.marker).isNone

/-- The edit that a short call asks for.  With a colon behind it the call is
left alone when it opens a block, and refused otherwise. -/
def callEdit? (cx : Context) (t : Text) (c : ShortCall) : Except CompileError (Option Edit) :=
  if c.colon then
    if Block.opensAt t c.marker then .ok none
    else .error (.ambiguousColon c.call.name.written (cx.position t c.marker))
  else do
    let handler := cx.handler c.call.name
    let arguments := c.call.argumentText
    let code ← cx.expand ⟨handler, none, none, arguments⟩ (cx.position t c.marker)
      (cx.dialect.host.call handler arguments)
    return some ⟨c.start, c.stop, c.blanks ++ code⟩

def applyShortCalls (cx : Context) (t : Text) : Except CompileError Text := do
  let edits ← (callsOutsideBodies t).mapM (callEdit? cx t)
  return Edit.applyAll t (edits.filterMap id)

/-! ## Blocks -/

/-- How a block body is compiled: the body, the position where it begins, and
the position of the block that owns it. -/
abbrev BodyCompiler := Text → Position → Position → Except CompileError Text

/-- The edit that a block asks for, or why the block is refused. -/
def blockEdit (cx : Context) (nested : BodyCompiler) (t : Text) :
    Block.Reading → Except CompileError Edit
  | .unterminated o =>
    .error (.unterminatedBlock o.call.name.written (cx.position t o.marker))
  | .malformed o ending =>
    .error (.malformedEnd o.call.name.written o.call.argumentText (cx.position t ending.start))
  | .closed b => do
    let o := b.opening
    let position := cx.position t o.marker
    let body ← nested b.body (cx.position t b.bodyStart) position
    let handler := cx.handler o.call.name
    let arguments := o.call.argumentText
    let code ← cx.expand ⟨handler, some o.indent, some body, arguments⟩ position
      (cx.dialect.host.capture handler o.indent body arguments)
    return ⟨o.start, b.stop, o.blanks ++ o.indent ++ code⟩

def applyBlocks (cx : Context) (nested : BodyCompiler) (t : Text) : Except CompileError Text := do
  let edits ← (Block.readAll t).mapM (blockEdit cx nested t)
  return Edit.applyAll t edits

def apply (cx : Context) (nested : BodyCompiler) (t : Text) : Rule → Except CompileError Text
  | attributes => .ok (applyAttributes cx t)
  | shortCalls => applyShortCalls cx t
  | blocks => applyBlocks cx nested t

end Rule
end TemplateDirectives
