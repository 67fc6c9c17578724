/-
The program.

It takes a picture of the files that a command may ask for, runs the command on
the picture, and then writes what has changed to the disk.  The picture holds
the settings files on the way up from the working directory, the paths of the
command line, and the source and output directories with all that lies in them.
-/
import TemplateDirectives.Command.Run

namespace TemplateDirectives
namespace Main

def pathOf (l : Location) : Text := '/' :: Path.ofParts l

def diskPath (l : Location) : String := String.ofList (pathOf l)

/-- Add what the disk has at a location, and whether it is a directory. -/
def observe (tree : FileTree) (l : Location) : IO (FileTree × Bool) := do
  try
    let p ← IO.FS.realPath (diskPath l)
    if ← p.isDir then
      return ((tree.makeDirectories [] (pathOf l)).1, true)
    else if ← p.pathExists then
      let bytes ← IO.FS.readBinFile p
      let content := match String.fromUTF8? bytes with
        | some s => Content.text s.toList
        | none => Content.binary
      return ((tree.writeInPlace [] (pathOf l) content).1, false)
    else
      return (tree, false)
  catch _ =>
    return (tree, false)

/-- Add what the disk has along a path. -/
def observePath (tree : FileTree) (here : Location) (p : Text) : IO FileTree := do
  let mut tree := tree
  let mut l := FileTree.origin here p
  for part in FileTree.names p do
    l := FileTree.step l part
    let (seen, _) ← observe tree l
    tree := seen
  return tree

/-- Add all that lies below a directory. -/
partial def observeBelow (tree : FileTree) (l : Location) : IO FileTree := do
  let (seen, isDirectory) ← observe tree l
  if !isDirectory then return seen
  let mut tree := seen
  try
    for entry in ← (← IO.FS.realPath (diskPath l)).readDir do
      tree ← observeBelow tree (l ++ [entry.fileName.toList])
  catch _ => pure ()
  return tree

/-- Add all that lies below the directory that a path leads to. -/
def observeDirectory (tree : FileTree) (here : Location) (p : Text) : IO FileTree := do
  let tree ← observePath tree here p
  match tree.walk (FileTree.origin here p) (FileTree.names p) with
  | .ok l => observeBelow tree l
  | .error _ => return tree

/-- The environment that a list of `NAME=VALUE` texts describes. -/
def environmentOf (settings : List Text) : Environment := fun name =>
  settings.findSome? fun setting =>
    match Text.cutAt? ['='] setting with
    | some (n, value) => if n = name then some value else none
    | none => none

/-- The environment as the system shows it to the process. -/
def readEnvironment : IO Environment := do
  try
    let bytes ← IO.FS.readBinFile "/proc/self/environ"
    let all := (String.fromUTF8? bytes).getD ""
    return environmentOf (Text.splitOn ['\x00'] all.toList)
  catch _ =>
    return fun _ => none

/-- The paths that a command names: the settings file, and the others. -/
def pathsOf : Command → Option Text × List Text
  | .compile input output config _ => (config, input :: output.toList)
  | .build config _ _ _ => (config, [])
  | .check config _ _ => (config, [])

/-- The directories that a command reads or fills, once its settings are
known. -/
def directoriesOf (s : Surroundings) : Command → List Text
  | .compile _ _ _ _ => []
  | .build config sourceDir outputDir defaultSpace =>
    match Config.load s config (some ⟨sourceDir, outputDir, Command.givenSpace s defaultSpace⟩) with
    | .ok c => [c.sourceDir, c.outputDir]
    | .error _ => []
  | .check config sourceDir defaultSpace =>
    match Config.load s config (some ⟨sourceDir, none, Command.givenSpace s defaultSpace⟩) with
    | .ok c => [c.sourceDir]
    | .error _ => []

def observeAll (command : Command) : IO Surroundings := do
  let environment ← readEnvironment
  let here := FileTree.names (toString (← IO.currentDir)).toList
  let (config, others) := pathsOf command
  let holders := Path.ancestors (pathOf here)
  let candidates := holders.map fun directory => Path.join directory Config.fileName
  let mut tree := FileTree.empty
  for p in holders ++ candidates ++ config.toList ++ others do
    tree ← observePath tree here p
  for p in directoriesOf ⟨environment, here, tree⟩ command do
    tree ← observeDirectory tree here p
  return ⟨environment, here, tree⟩

/-- Write to the disk what `after` has and `before` has not. -/
def writeChanges (before after : FileTree) : IO Unit := do
  for (l, node) in after.entries do
    if before.node? l != some node then
      match node with
      | .directory => IO.FS.createDirAll (diskPath l)
      | .file (.text t) => IO.FS.writeFile (diskPath l) (String.ofList t)
      | .file .binary => pure ()

/-- Read the standard input of a command that asks for it. -/
def readInput : Command → IO Content
  | .compile ['-'] _ _ _ => do
    let bytes ← (← IO.getStdin).readBinToEnd
    return match String.fromUTF8? bytes with
      | some s => .text s.toList
      | none => .binary
  | _ => return .text []

def run (arguments : List String) : IO UInt32 := do
  match Command.ofArguments? (arguments.map String.toList) with
  | none =>
    IO.eprintln "usage: compile INPUT [OPTIONS] | build [OPTIONS] | check [OPTIONS]"
    return 2
  | some command =>
    let surroundings ← observeAll command
    let stdin ← readInput command
    let outcome := Command.run surroundings stdin command
    writeChanges surroundings.tree outcome.tree
    IO.print (String.ofList outcome.printed)
    for line in outcome.lines do
      IO.eprintln line
    return outcome.code.toUInt32

end Main
end TemplateDirectives

def main (arguments : List String) : IO UInt32 := TemplateDirectives.Main.run arguments
