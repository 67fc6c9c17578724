/-
Command lines.

The first argument names the command.  Options follow it in any order: a long
one as `--name value` or `--name=value`, a short one as `-x value`, `-xvalue` or
`-x=value`, and short ones without a value can be written together.  After `--`
all arguments are operands.  A line is refused when it names an unknown option,
repeats one, leaves out a value, gives an empty path, or has the wrong number of
operands.
-/
import TemplateDirectives.Text.Basic

namespace TemplateDirectives
namespace Command

inductive Setting where
  | output
  | config
  | sourceDir
  | outputDir
  | defaultSpace
  | verbose
  deriving DecidableEq

/-- An option as a command knows it. -/
structure Switch where
  setting : Setting
  long : Text
  short : Option Char

/-- The only option without a value. -/
def Switch.takesValue (s : Switch) : Bool := s.setting != .verbose

/-- What an argument list sets, in order, and its operands. -/
structure Given where
  settings : List (Setting × Text)
  operands : List Text

namespace Given

def empty : Given := ⟨[], []⟩

def withOperand (operand : Text) (g : Given) : Given :=
  { g with operands := operand :: g.operands }

def value? (g : Given) (key : Setting) : Option Text := g.settings.lookup key

end Given

/-- An argument that begins like an option.  A single hyphen is a value. -/
def looksLikeOption (a : Text) : Bool := a.head? == some '-' && a != ['-']

/-- The settings that short options written together make.  When the last one
lacks its value, it is returned apart. -/
def readCluster? (switches : List Switch) : Text → Option (List (Setting × Text) × Option Setting)
  | [] => some ([], none)
  | c :: rest =>
    match switches.find? fun s => s.short = some c with
    | none => none
    | some s =>
      if s.takesValue then
        match rest with
        | [] => some ([], some s.setting)
        | '=' :: value => some ([(s.setting, value)], none)
        | value => some ([(s.setting, value)], none)
      else (readCluster? switches rest).map fun (more, open_) => ((s.setting, []) :: more, open_)

/-- The setting of a long option, given without its hyphens, and its value if
one is attached. -/
def readLong? (switches : List Switch) (body : Text) : Option (Setting × Option Text) :=
  let (name, value) := match Text.cutAt? ['='] body with
    | some (name, value) => (name, some value)
    | none => (body, none)
  match switches.find? fun s => s.long = name with
  | none => none
  | some s =>
    if s.takesValue then some (s.setting, value)
    else if value.isNone then some (s.setting, some [])
    else none

inductive Reading where
  | operand (a : Text)
  /-- From here on there are operands only. -/
  | separator
  /-- Settings, and the one that the next argument must complete. -/
  | settings (made : List (Setting × Text)) (awaiting : Option Setting)

def readArgument? (switches : List Switch) (a : Text) : Option Reading :=
  if a = ['-', '-'] then some .separator
  else
    match Text.after? ['-', '-'] a with
    | some body =>
      (readLong? switches body).map fun (key, value) =>
        match value with
        | some v => .settings [(key, v)] none
        | none => .settings [] (some key)
    | none =>
      if looksLikeOption a then
        (readCluster? switches (a.drop 1)).map fun (made, awaiting) => .settings made awaiting
      else some (.operand a)

def readArguments? (switches : List Switch) : List Text → Option Given
  | [] => some Given.empty
  | a :: rest =>
    match readArgument? switches a with
    | none => none
    | some (.operand a) => (readArguments? switches rest).map (Given.withOperand a)
    | some .separator => some ⟨[], rest⟩
    | some (.settings made none) =>
      (readArguments? switches rest).map fun g => ⟨made ++ g.settings, g.operands⟩
    | some (.settings made (some key)) =>
      match rest with
      | [] => none
      | value :: rest =>
        if looksLikeOption value then none
        else (readArguments? switches rest).map fun g =>
          ⟨made ++ (key, value) :: g.settings, g.operands⟩

/-- Whether no option is repeated and no path is empty. -/
def Given.isProper (g : Given) : Bool :=
  decide (g.settings.map Prod.fst).Nodup &&
    g.settings.all (fun (key, value) =>
      key == .verbose || key == .defaultSpace || !value.isEmpty) &&
    g.operands.all fun operand => !operand.isEmpty

def outputSwitch : Switch := ⟨.output, "output".toList, some 'o'⟩
def configSwitch : Switch := ⟨.config, "config".toList, some 'c'⟩
def sourceDirSwitch : Switch := ⟨.sourceDir, "source-dir".toList, some 's'⟩
def outputDirSwitch : Switch := ⟨.outputDir, "output-dir".toList, some 'o'⟩
def defaultSpaceSwitch : Switch := ⟨.defaultSpace, "default-namespace".toList, none⟩
def verboseSwitch : Switch := ⟨.verbose, "verbose".toList, some 'v'⟩

/-- Read the arguments of a command with a fixed number of operands. -/
def readProper? (switches : List Switch) (operands : Nat) (arguments : List Text) :
    Option Given :=
  match readArguments? switches arguments with
  | none => none
  | some g => if g.isProper && g.operands.length == operands then some g else none

end Command

inductive Command where
  /-- Compile one template, to a file or to the standard output. -/
  | compile (input : Text) (output config defaultSpace : Option Text)
  /-- Compile every template of a directory into another. -/
  | build (config sourceDir outputDir defaultSpace : Option Text)
  /-- Compile every template of a directory without writing anything. -/
  | check (config sourceDir defaultSpace : Option Text)
  deriving DecidableEq

namespace Command

def ofArguments? : List Text → Option Command
  | [] => none
  | name :: rest =>
    if name = "compile".toList then
      match readProper? [outputSwitch, configSwitch, defaultSpaceSwitch, verboseSwitch] 1 rest with
      | some g =>
        g.operands.head?.map fun input =>
          .compile input (g.value? .output) (g.value? .config) (g.value? .defaultSpace)
      | none => none
    else if name = "build".toList then
      (readProper? [configSwitch, sourceDirSwitch, outputDirSwitch, defaultSpaceSwitch,
        verboseSwitch] 0 rest).map fun g =>
          .build (g.value? .config) (g.value? .sourceDir) (g.value? .outputDir)
            (g.value? .defaultSpace)
    else if name = "check".toList then
      (readProper? [configSwitch, sourceDirSwitch, defaultSpaceSwitch, verboseSwitch] 0
        rest).map fun g =>
          .check (g.value? .config) (g.value? .sourceDir) (g.value? .defaultSpace)
    else none

end Command
end TemplateDirectives
