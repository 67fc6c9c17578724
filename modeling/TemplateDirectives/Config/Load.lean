/-
Loading settings.

The file is the one that is named, or the nearest `rb.toml` in the working
directory and those above it.  Directories in the file are seen from the file's
own directory.  Without any file the defaults hold, seen from the working
directory.
-/
import TemplateDirectives.Config.Basic
import TemplateDirectives.Config.Expansion
import TemplateDirectives.Toml.Document

namespace TemplateDirectives

/-! ## What a run finds around it -/

/-- The environment, the working directory and the files. -/
structure Surroundings where
  environment : Environment
  here : Location
  tree : FileTree

namespace Surroundings

def herePath (s : Surroundings) : Text := '/' :: Path.ofParts s.here

def read (s : Surroundings) (p : Text) : Except FileError Text := s.tree.read s.here p

end Surroundings

/-! ## The settings file -/

namespace Config

/-- What a settings file says, before it is applied. -/
structure Written where
  defaultSpace : Option Text
  maxDepth : Option Nat
  sourceDir : Option Text
  outputDir : Option Text
  pattern : Option Text

namespace Written

open Toml (Value Entries)

/-- The values of the named fields of a section.  A section is a table, or an
array with the values in the order of the fields.  A time has none of them. -/
def fields? (names : List Text) : Value → Option (List (Option Value))
  | .table _ entries => some (names.map fun n => entries.lookup n)
  | .array items => some ((List.range names.length).map fun i => items[i]?)
  | .tables latestFirst =>
    let items := latestFirst.reverse
    some ((List.range names.length).map fun i => items[i]?.map (.table .opened))
  | .moment => some (names.map fun _ => none)
  | _ => none

/-- A field that holds a text, if it is there at all. -/
def text? : Option Value → Option (Option Text)
  | none => some none
  | some (.text t) => some (some t)
  | some _ => none

/-- A field that holds a natural number of 64 bits, if it is there at all. -/
def natural? : Option Value → Option (Option Nat)
  | none => some none
  | some (.integer (.ofNat n)) => if n < Nat.pow 2 64 then some (some n) else none
  | some _ => none

/-- The fields of a section of the file, all missing when the section is. -/
def section? (entries : Entries) (name : Text) (names : List Text) :
    Option (List (Option Value)) :=
  match entries.lookup name with
  | none => some (names.map fun _ => none)
  | some v => fields? names v

/-- Read what the entries of a file say.  What they say besides is passed
over. -/
def ofEntries? (entries : Entries) : Option Written := do
  let directives ← section? entries "directives".toList
    ["default_namespace".toList, "max_depth".toList]
  let templates ← section? entries "templates".toList
    ["source_dir".toList, "output_dir".toList, "pattern".toList]
  match directives, templates with
  | [space, depth], [source, output, pattern] => do
    let defaultSpace ← text? space
    let maxDepth ← natural? depth
    let sourceDir ← text? source
    let outputDir ← text? output
    let pattern ← text? pattern
    return { defaultSpace, maxDepth, sourceDir, outputDir, pattern }
  | _, _ => none

def ofText? (t : Text) : Option Written := (Toml.parse? t).bind ofEntries?

end Written

/-- Expand one setting, if the file has it. -/
def expandField (env : Environment) (field : String) (t : Option Text) :
    Except ConfigError (Option Text) :=
  match t with
  | none => .ok none
  | some t =>
    match Expansion.expand env t with
    | .ok u => .ok (some u)
    | .error name => .error (.unsetVariable field name)

/-- The settings that a file at `path` makes of what it says. -/
def ofWritten (env : Environment) (path : Text) (w : Written) : Except ConfigError Config := do
  let defaultSpace ← expandField env namespaceField w.defaultSpace
  let sourceDir ← expandField env sourceField w.sourceDir
  let outputDir ← expandField env outputField w.outputDir
  let directory := (Path.parent? path).getD ['.']
  validated {
    defaultSpace := defaultSpace.getD Compiler.defaultSpace
    maxDepth := w.maxDepth.getD Compiler.defaultMaxDepth
    sourceDir := Path.join directory (sourceDir.getD defaultSourceDir)
    outputDir := Path.join directory (outputDir.getD defaultOutputDir)
    pattern := w.pattern.getD defaultPattern
    path := some path }

def ofFile (s : Surroundings) (path : Text) : Except ConfigError Config :=
  match s.read path with
  | .error e => .error (.file e)
  | .ok t =>
    match Written.ofText? t with
    | none => .error .malformed
    | some w => ofWritten s.environment path w

def fileName : Text := "rb.toml".toList

/-- The nearest settings file, from the working directory upwards. -/
def discover? (s : Surroundings) : Option Text :=
  ((Path.ancestors s.herePath).map fun directory => Path.join directory fileName).find?
    fun candidate => s.tree.isFile s.here candidate

/-- The settings before the command line is heard. -/
def loadFile (s : Surroundings) (path : Option Text) : Except ConfigError Config :=
  match path with
  | some p => if s.tree.pathExists s.here p then ofFile s p else .error (.notFound p)
  | none =>
    match discover? s with
    | some p => ofFile s p
    | none => .ok (default s.herePath)

/-- Load the settings.  They are checked again once the command line has changed
them. -/
def load (s : Surroundings) (path : Option Text) (overrides : Option Overrides) :
    Except ConfigError Config :=
  match loadFile s path with
  | .error e => .error e
  | .ok c =>
    match overrides with
    | none => .ok c
    | some o => (c.override o).validated

end Config
end TemplateDirectives
