/-
Running a command.

A run reads its surroundings and leaves a tree, the text it has printed, its
messages, and why it failed, if it did.  `build` compiles all templates before it
writes the first one, so a template that does not compile keeps every file as it
was.
-/
import TemplateDirectives.Command.Line
import TemplateDirectives.Command.Template
import TemplateDirectives.Config.Load

namespace TemplateDirectives

inductive RunError where
  | config (cause : ConfigError)
  | file (cause : FileError)
  | pattern (cause : Glob.PatternError)
  /-- The template that a label names does not compile. -/
  | template (label : Text) (cause : CompileError)
  | missingSource (sourceDir : Text)
  | failedTemplates (failed total : Nat)
  deriving DecidableEq

def RunError.message : RunError → String
  | .config cause => cause.message
  | .file cause => cause.message
  | .pattern cause => cause.message
  | .template label cause => s!"{String.ofList label}: {cause.message}"
  | .missingSource sourceDir => s!"Source directory not found: {String.ofList sourceDir}"
  | .failedTemplates failed total => s!"{failed} of {total} templates failed to compile"

/-- What a run leaves. -/
structure Outcome where
  tree : FileTree
  /-- What is printed to the standard output. -/
  printed : Text
  /-- The lines of the error output, before the one that reports a failure. -/
  messages : List String
  failure : Option RunError

namespace Outcome

def lines (o : Outcome) : List String :=
  o.messages ++
    match o.failure with
    | none => []
    | some e => [s!"Error: {e.message}"]

def code (o : Outcome) : Nat := if o.failure.isSome then 1 else 0

def failed (tree : FileTree) (messages : List String) (e : RunError) : Outcome :=
  ⟨tree, [], messages, some e⟩

end Outcome

namespace Command

/-- The variable that stands in for the option of the default namespace. -/
def spaceVariable : Text := "RB_DEFAULT_NAMESPACE".toList

/-- The default namespace that the command line or the environment gives. -/
def givenSpace (s : Surroundings) (option : Option Text) : Option Text :=
  option.or (s.environment spaceVariable)

/-- The input that means the standard input. -/
def standardInput : Text := ['-']

/-- Read the input of `compile`: a label for messages, and the text. -/
def readInput (s : Surroundings) (stdin : Content) (input : Text) :
    Except FileError (Text × Text) :=
  if input = standardInput then
    match stdin with
    | .text t => .ok ("<stdin>".toList, t)
    | .binary => .error .notText
  else
    match s.read input with
    | .ok t => .ok (input, t)
    | .error e => .error e

def runCompile (s : Surroundings) (stdin : Content) (input : Text)
    (output config defaultSpace : Option Text) : Outcome :=
  match Config.load s config (some ⟨none, none, givenSpace s defaultSpace⟩) with
  | .error e => Outcome.failed s.tree [] (.config e)
  | .ok c =>
    match readInput s stdin input with
    | .error e => Outcome.failed s.tree [] (.file e)
    | .ok (label, source) =>
      match c.compiler.compile source with
      | .error e => Outcome.failed s.tree [] (.template label e)
      | .ok text =>
        match output with
        | none => ⟨s.tree, text, [], none⟩
        | some path =>
          match s.tree.write s.here path (.text text) with
          | (tree, .ok ()) => ⟨tree, [], [], none⟩
          | (tree, .error e) => Outcome.failed tree [] (.file e)

def findTemplates (s : Surroundings) (c : Config) : Except RunError (List Template) :=
  if s.tree.isDirectory s.here c.sourceDir then
    match Glob.Pattern.ofText c.pattern with
    | .error e => .error (.pattern e)
    | .ok pattern => .ok (Template.discover s c.sourceDir pattern)
  else .error (.missingSource c.sourceDir)

def warning (failure : Template × TemplateError) : String :=
  s!"{String.ofList failure.1.relative}: {failure.2.message}"

/-- Where the compiled text of a template is written. -/
def target (outputDir : Text) (t : Template) : Text := Path.join outputDir t.relative

/-- Write compiled templates one after another, up to the first that cannot be
written. -/
def writeAll (here : Location) (outputDir : Text) (tree : FileTree) :
    List (Template × Text) → FileTree.Change
  | [] => (tree, .ok ())
  | (t, text) :: rest =>
    match tree.write here (target outputDir t) (.text text) with
    | (tree, .error e) => (tree, .error e)
    | (tree, .ok ()) => writeAll here outputDir tree rest

def sourceLine (c : Config) : String := s!"Source: {String.ofList c.sourceDir}"

def outputLine (c : Config) : String := s!"Output: {String.ofList c.outputDir}"

/-- Compile all templates and go on with them, unless one failed. -/
def withTemplates (s : Surroundings) (c : Config) (opening : List String)
    (finish : List (Template × Text) → Outcome) : Outcome :=
  match findTemplates s c with
  | .error e => Outcome.failed s.tree opening e
  | .ok found =>
    let batch := Batch.run s c.compiler found
    if batch.failures.isEmpty then finish batch.compiled
    else
      Outcome.failed s.tree (opening ++ batch.failures.map warning)
        (.failedTemplates batch.failures.length batch.size)

/-- Write what a build has compiled. -/
def writeOutputs (s : Surroundings) (c : Config) (opening : List String)
    (compiled : List (Template × Text)) : Outcome :=
  match writeAll s.here c.outputDir s.tree compiled with
  | (tree, .error e) => Outcome.failed tree opening (.file e)
  | (tree, .ok ()) =>
    let done := s!"Compiled {compiled.length} templates to {String.ofList c.outputDir}"
    ⟨tree, [], opening ++ [done], none⟩

/-- Compile the templates of a directory into another. -/
def runBuild (s : Surroundings) (config sourceDir outputDir defaultSpace : Option Text) :
    Outcome :=
  match Config.load s config (some ⟨sourceDir, outputDir, givenSpace s defaultSpace⟩) with
  | .error e => Outcome.failed s.tree [] (.config e)
  | .ok c =>
    let opening := [sourceLine c, outputLine c]
    withTemplates s c opening (writeOutputs s c opening)

/-- Compile the templates of a directory and write nothing. -/
def runCheck (s : Surroundings) (config sourceDir defaultSpace : Option Text) : Outcome :=
  match Config.load s config (some ⟨sourceDir, none, givenSpace s defaultSpace⟩) with
  | .error e => Outcome.failed s.tree [] (.config e)
  | .ok c =>
    withTemplates s c [sourceLine c] fun compiled =>
      ⟨s.tree, [], [sourceLine c, s!"{compiled.length} templates OK"], none⟩

def run (s : Surroundings) (stdin : Content) : Command → Outcome
  | compile input output config defaultSpace =>
    runCompile s stdin input output config defaultSpace
  | build config sourceDir outputDir defaultSpace =>
    runBuild s config sourceDir outputDir defaultSpace
  | check config sourceDir defaultSpace => runCheck s config sourceDir defaultSpace

end Command
end TemplateDirectives
