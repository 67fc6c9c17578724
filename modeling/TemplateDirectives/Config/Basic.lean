/-
Settings of the program.

Settings come from a file, from the command line, and from defaults, in this
order of weakness: what the command line gives replaces what the file says, and
what neither says has a default.  `Config.validate` says which settings are
usable, and names the first one that is not.
-/
import TemplateDirectives.Compiler.Basic
import TemplateDirectives.FileSystem.Access
import TemplateDirectives.Glob.Match
import TemplateDirectives.Text.Quoted

namespace TemplateDirectives

inductive SettingFault where
  | emptyField (field : String)
  /-- A namespace with a character that none may have. -/
  | namespaceCharacters (field : String) (given : Text)
  | zeroDepth
  | excessiveDepth
  | badPattern (cause : Glob.PatternError)
  deriving DecidableEq

inductive ConfigError where
  | notFound (path : Text)
  | file (cause : FileError)
  /-- The file is malformed, or a value in it has the wrong type. -/
  | malformed
  | invalid (fault : SettingFault)
  | unsetVariable (field : String) (name : Text)
  deriving DecidableEq

/-- The settings that a run uses. -/
structure Config where
  defaultSpace : Text
  maxDepth : Nat
  sourceDir : Text
  outputDir : Text
  pattern : Text
  path : Option Text
  deriving DecidableEq

namespace Config

/-- The greatest nesting limit that can be set. -/
def greatestDepth : Nat := 256

def namespaceField : String := "directives.default_namespace"
def sourceField : String := "templates.source_dir"
def outputField : String := "templates.output_dir"

end Config

def SettingFault.message : SettingFault → String
  | .emptyField field => s!"{field} cannot be empty"
  | .namespaceCharacters field given =>
    s!"{field} may only contain letters, digits, '_' and '\\', got " ++
      String.ofList (Text.quoted given)
  | .zeroDepth => "directives.max_depth must be greater than 0"
  | .excessiveDepth => s!"directives.max_depth cannot exceed {Config.greatestDepth}"
  | .badPattern cause => s!"templates.pattern is not a valid glob: {cause.message}"

def ConfigError.message : ConfigError → String
  | .notFound path => s!"Configuration file not found: {String.ofList path}"
  | .file cause => s!"I/O error: {cause.message}"
  | .malformed => "TOML parse error: not a settings file"
  | .invalid fault => s!"Configuration error: {fault.message}"
  | .unsetVariable field name =>
    s!"Environment variable error in {field}: $\x7b" ++ String.ofList name ++ "\x7d not set"

namespace Config

def defaultSourceDir : Text := "views".toList
def defaultOutputDir : Text := "build/views".toList
def defaultPattern : Text := "**/*.blade.php".toList

/-- The defaults, with directories in `base`. -/
def default (base : Text) : Config where
  defaultSpace := Compiler.defaultSpace
  maxDepth := Compiler.defaultMaxDepth
  sourceDir := Path.join base defaultSourceDir
  outputDir := Path.join base defaultOutputDir
  pattern := defaultPattern
  path := none

/-- Characters of namespaces: those of the qualifier of a directive's name. -/
def isNamespaceChar (c : Char) : Bool := Directive.Name.isQualifierChar c

/-- Check the settings in the order in which faults are reported. -/
def validate (c : Config) : Except SettingFault Unit :=
  if c.defaultSpace = [] then .error (.emptyField namespaceField)
  else if !c.defaultSpace.all isNamespaceChar then
    .error (.namespaceCharacters namespaceField c.defaultSpace)
  else if c.maxDepth = 0 then .error .zeroDepth
  else if greatestDepth < c.maxDepth then .error .excessiveDepth
  else if c.pattern = [] then .error (.emptyField "templates.pattern")
  else
    match Glob.Pattern.ofText c.pattern with
    | .error e => .error (.badPattern e)
    | .ok _ => .ok ()

/-- The same settings, if they are valid. -/
def validated (c : Config) : Except ConfigError Config :=
  match c.validate with
  | .ok () => .ok c
  | .error fault => .error (.invalid fault)

/-- Settings of the command line. -/
structure Overrides where
  sourceDir : Option Text
  outputDir : Option Text
  defaultSpace : Option Text

def Overrides.none : Overrides := ⟨Option.none, Option.none, Option.none⟩

/-- Let the command line replace what it gives. -/
def override (c : Config) (o : Overrides) : Config :=
  { c with
    sourceDir := o.sourceDir.getD c.sourceDir
    outputDir := o.outputDir.getD c.outputDir
    defaultSpace := o.defaultSpace.getD c.defaultSpace }

end Config
end TemplateDirectives
