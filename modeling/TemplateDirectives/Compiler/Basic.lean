/-
The template compiler.

A template goes through the three rules and then through the passes that the
compiler was given, in order.  A block body goes through the same pipeline one
level deeper.  `compileLevel` recurses on the number of levels that may still be
entered, so its unfolding is the whole account of nesting: with none left, the
first block is refused.
-/
import TemplateDirectives.Compiler.Rule

namespace TemplateDirectives

structure Pass where
  name : Text
  apply : Context → Text → Except CompileError Text

/-- A pass that looks at the text alone, not at its place, and never
fails. -/
def Pass.plain (name : Text) (change : Text → Text) : Pass :=
  ⟨name, fun _ t => .ok (change t)⟩

structure Compiler where
  dialect : Dialect
  /-- The number of blocks that may lie inside one another. -/
  maxDepth : Nat
  passes : List Pass

namespace Compiler

/-- The namespace of plain names, unless another is chosen. -/
def defaultSpace : Text := "Directives".toList

/-- The nesting limit, unless another is chosen. -/
def defaultMaxDepth : Nat := 16

/-- The context of a text that lies `depth` bodies deep and begins at
`origin`. -/
def context (c : Compiler) (depth : Nat) (origin : Position) : Context :=
  ⟨c.dialect, depth, origin⟩

def topContext (c : Compiler) : Context := c.context 0 Position.start

/-- The rules and then the passes, in order. -/
def pipeline (c : Compiler) (cx : Context) (nested : Rule.BodyCompiler) (t : Text) :
    Except CompileError Text := do
  let ruled ← Rule.all.foldlM (fun u rule => rule.apply cx nested u) t
  c.passes.foldlM (fun u pass => pass.apply cx u) ruled

/-- Compile a text that may hold `levels` more levels of blocks. -/
def compileLevel (c : Compiler) : (levels : Nat) → (origin : Position) → Text →
    Except CompileError Text
  | 0, origin, t =>
    c.pipeline (c.context c.maxDepth origin)
      (fun _ _ position => .error (.nestingTooDeep c.maxDepth position)) t
  | levels + 1, origin, t =>
    c.pipeline (c.context (c.maxDepth - (levels + 1)) origin)
      (fun body bodyOrigin _ => c.compileLevel levels bodyOrigin body) t

/-- How the bodies of a text with `levels` levels left are compiled. -/
def nested (c : Compiler) (levels : Nat) : Rule.BodyCompiler := fun body origin position =>
  match levels with
  | 0 => .error (.nestingTooDeep c.maxDepth position)
  | levels + 1 => c.compileLevel levels origin body

def compile (c : Compiler) (t : Text) : Except CompileError Text :=
  c.compileLevel c.maxDepth Position.start t

/-- Compile a body of the template's own blocks. -/
def compileBody (c : Compiler) : Rule.BodyCompiler := c.nested c.maxDepth

def applyRule (c : Compiler) (rule : Rule) (t : Text) : Except CompileError Text :=
  rule.apply c.topContext c.compileBody t

/-- The names of the rules and the passes, in order. -/
def passNames (c : Compiler) : List Text := Rule.all.map Rule.name ++ c.passes.map Pass.name

/-- The pipeline with its rules written out: attributes, short calls, blocks, and then
the passes. -/
theorem pipeline_eq (c : Compiler) (cx : Context) (nested : Rule.BodyCompiler) (t : Text) :
    c.pipeline cx nested t =
      Rule.applyShortCalls cx (Rule.applyAttributes cx t) >>= fun called =>
        Rule.applyBlocks cx nested called >>= fun ruled =>
          c.passes.foldlM (fun u pass => pass.apply cx u) ruled := by
  simp only [pipeline, Rule.all, List.foldlM_cons, List.foldlM_nil, Rule.apply, bind_assoc,
    pure_bind]
  rfl

/-- Both cases of `compileLevel` in one equation. -/
theorem compileLevel_eq (c : Compiler) (levels : Nat) (origin : Position) (t : Text) :
    c.compileLevel levels origin t =
      c.pipeline (c.context (c.maxDepth - levels) origin) (c.nested levels) t := by
  cases levels with
  | zero => rfl
  | succ levels => rfl

end Compiler
end TemplateDirectives
