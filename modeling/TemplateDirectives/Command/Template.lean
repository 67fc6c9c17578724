/-
The templates of a directory.

A template is a file below the source directory whose path from there matches
the pattern and has no part that begins with a dot.  Templates are listed in the
order of those paths, compared part by part, so the order in which a directory
lists its entries does not matter.
-/
import TemplateDirectives.Config.Load

namespace TemplateDirectives

/-- A template: the path of its file, and its path from the source
directory. -/
structure Template where
  path : Text
  relative : Text
  deriving DecidableEq

inductive TemplateError where
  | file (cause : FileError)
  | compile (cause : CompileError)
  deriving DecidableEq

def TemplateError.message : TemplateError → String
  | .file cause => cause.message
  | .compile cause => cause.message

namespace Template

def isHidden (name : Text) : Bool := name.head? == some '.'

/-- The names on the way from a directory to a file below it. -/
def namesBelow? (directory l : Location) : Option (List Text) :=
  if directory.isPrefixOf l then some (l.drop directory.length) else none

/-- Whether a file at these names is a template. -/
def isSelected (pattern : Glob.Pattern) (names : List Text) : Bool :=
  !names.any isHidden && pattern.matches (Path.ofParts names)

/-- Paths in order, compared part by part. -/
def namesLe (a b : List Text) : Bool := !b.lex a Text.precedes

/-- The names of all templates below a directory, in order. -/
def namesIn (tree : FileTree) (directory : Location) (pattern : Glob.Pattern) :
    List (List Text) :=
  ((tree.files.filterMap fun f => namesBelow? directory f.1).filter
    (isSelected pattern)).mergeSort namesLe

/-- The template at these names below a source directory. -/
def below (sourceDir : Text) (names : List Text) : Template :=
  ⟨Path.join sourceDir (Path.ofParts names), Path.ofParts names⟩

/-- All templates of a source directory, in order.  A path that leads to no
directory has none. -/
def discover (s : Surroundings) (sourceDir : Text) (pattern : Glob.Pattern) : List Template :=
  match s.tree.directoryOf s.here sourceDir with
  | .error _ => []
  | .ok directory => (namesIn s.tree directory pattern).map (below sourceDir)

end Template

/-- The compiler that settings describe: built-in handlers in the default
namespace, PHP as host language, and no further passes. -/
def Config.compiler (c : Config) : Compiler where
  dialect :=
    { defaultSpace := c.defaultSpace
      registry := Registry.empty.addBuiltins c.defaultSpace
      host := HostLanguage.php }
  maxDepth := c.maxDepth
  passes := []

namespace Template

def compile (s : Surroundings) (c : Compiler) (t : Template) : Except TemplateError Text :=
  match s.read t.path with
  | .error e => .error (.file e)
  | .ok source =>
    match c.compile source with
    | .error e => .error (.compile e)
    | .ok text => .ok text

end Template

/-- What became of the templates of a directory, in order. -/
structure Batch where
  compiled : List (Template × Text)
  failures : List (Template × TemplateError)

namespace Batch

def cons (t : Template) (result : Except TemplateError Text) (b : Batch) : Batch :=
  match result with
  | .ok text => { b with compiled := (t, text) :: b.compiled }
  | .error e => { b with failures := (t, e) :: b.failures }

/-- Compile every template, also after failures. -/
def run (s : Surroundings) (c : Compiler) : List Template → Batch
  | [] => ⟨[], []⟩
  | t :: rest => (run s c rest).cons t (t.compile s c)

def size (b : Batch) : Nat := b.compiled.length + b.failures.length

end Batch
end TemplateDirectives
