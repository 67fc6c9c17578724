/-
Reading and writing files by path.

A path is followed part by part from the working directory, or from the root
when it is absolute, and every part but the last must be a directory.  A path
that ends with a slash means a directory.  Making a directory with all that hold
it, and writing a file, may stop halfway, so they return the tree as they leave
it along with what went wrong.
-/
import TemplateDirectives.FileSystem.Path
import TemplateDirectives.FileSystem.Tree

namespace TemplateDirectives

inductive FileError where
  | notFound
  | alreadyExists
  | notDirectory
  | isDirectory
  | notText
  deriving DecidableEq

def FileError.message : FileError → String
  | .notFound => "No such file or directory (os error 2)"
  | .alreadyExists => "File exists (os error 17)"
  | .notDirectory => "Not a directory (os error 20)"
  | .isDirectory => "Is a directory (os error 21)"
  | .notText => "stream did not contain valid UTF-8"

namespace FileTree

/-- The location itself, if a directory stands there. -/
def directoryAt (t : FileTree) (l : Location) : Except FileError Location :=
  match t.node? l with
  | none => .error .notFound
  | some (.file _) => .error .notDirectory
  | some .directory => .ok l

/-- Where a part of a path leads from a location. -/
def step (l : Location) (part : Text) : Location :=
  if part = ['.'] then l else if part = ['.', '.'] then l.dropLast else l ++ [part]

/-- Follow one part of a path from a directory. -/
def follow (t : FileTree) (l : Location) (part : Text) : Except FileError Location :=
  match t.directoryAt l with
  | .error e => .error e
  | .ok l => .ok (step l part)

/-- Follow parts one after another. -/
def walk (t : FileTree) (l : Location) : List Text → Except FileError Location
  | [] => .ok l
  | part :: rest =>
    match t.follow l part with
    | .error e => .error e
    | .ok l => t.walk l rest

/-- The parts of a path that lead somewhere. -/
def names (p : Text) : List Text := (Path.parts p).filter fun part => part ≠ []

def origin (here : Location) (p : Text) : Location := if Path.isAbsolute p then [] else here

def endsWithSlash (p : Text) : Bool := p.getLast? == some '/'

/-- What a path leads to. -/
def status (t : FileTree) (here : Location) (p : Text) : Except FileError Node :=
  if p = [] then .error .notFound
  else
    match t.walk (origin here p) (names p) with
    | .error e => .error e
    | .ok l =>
      match t.node? l with
      | none => .error .notFound
      | some .directory => .ok .directory
      | some (.file c) => if endsWithSlash p then .error .notDirectory else .ok (.file c)

/-- The location of the directory that a path leads to. -/
def directoryOf (t : FileTree) (here : Location) (p : Text) : Except FileError Location :=
  if p = [] then .error .notFound
  else
    match t.walk (origin here p) (names p) with
    | .error e => .error e
    | .ok l => t.directoryAt l

def pathExists (t : FileTree) (here : Location) (p : Text) : Bool :=
  match t.status here p with
  | .ok _ => true
  | .error _ => false

def isDirectory (t : FileTree) (here : Location) (p : Text) : Bool :=
  match t.status here p with
  | .ok .directory => true
  | _ => false

def isFile (t : FileTree) (here : Location) (p : Text) : Bool :=
  match t.status here p with
  | .ok (.file _) => true
  | _ => false

def read (t : FileTree) (here : Location) (p : Text) : Except FileError Text :=
  match t.status here p with
  | .error e => .error e
  | .ok .directory => .error .isDirectory
  | .ok (.file .binary) => .error .notText
  | .ok (.file (.text s)) => .ok s

/-- Where a path would make an entry: the directory that holds it, and its name
there.  There is no name when the path ends in a dot, in two, or in nothing. -/
def place (t : FileTree) (here : Location) (p : Text) :
    Except FileError (Location × Option EntryName) :=
  if p = [] then .error .notFound
  else
    match t.walk (origin here p) (names p).dropLast with
    | .error e => .error e
    | .ok l =>
      match t.directoryAt l with
      | .error e => .error e
      | .ok l =>
        match (names p).getLast? with
        | none => .ok (l, none)
        | some name =>
          if valid : IsEntryName name then .ok (l, some ⟨name, valid⟩) else .ok (l, none)

/-- A tree, and what went wrong on the way to it. -/
abbrev Change := FileTree × Except FileError Unit

def makeDirectory (t : FileTree) (here : Location) (p : Text) : Change :=
  match t.place here p with
  | .error e => (t, .error e)
  | .ok (_, none) => (t, .error .alreadyExists)
  | .ok (l, some name) =>
    if h : t.node? (l ++ [name.text]) = none ∧ t.node? l = some .directory then
      (t.add l name .directory h.1 h.2, .ok ())
    else (t, .error .alreadyExists)

/-- Make a directory after those that hold it.  The paths are the directory and
its ancestors, as far as needed. -/
def makeAllOf (t : FileTree) (here : Location) : List Text → Change
  | [] => (t, .error .notFound)
  | p :: holders =>
    if p = [] then (t, .ok ())
    else
      match t.makeDirectory here p with
      | (made, .ok ()) => (made, .ok ())
      | (_, .error .notFound) =>
        match t.makeAllOf here holders with
        | (held, .error e) => (held, .error e)
        | (held, .ok ()) =>
          match held.makeDirectory here p with
          | (made, .ok ()) => (made, .ok ())
          | (_, .error e) => if held.isDirectory here p then (held, .ok ()) else (held, .error e)
      | (_, .error e) => if t.isDirectory here p then (t, .ok ()) else (t, .error e)

/-- Make a directory, and every directory on the way to it that is missing. -/
def makeDirectories (t : FileTree) (here : Location) (p : Text) : Change :=
  t.makeAllOf here (Path.ancestors p)

/-- Write a file in a directory that is there. -/
def writeInPlace (t : FileTree) (here : Location) (p : Text) (c : Content) : Change :=
  match t.place here p with
  | .error e => (t, .error e)
  | .ok (_, none) => (t, .error .isDirectory)
  | .ok (l, some name) =>
    if endsWithSlash p then (t, .error .isDirectory)
    else
      match h : t.node? (l ++ [name.text]) with
      | some .directory => (t, .error .isDirectory)
      | some (.file _) => (t.replace (l ++ [name.text]) c, .ok ())
      | none =>
        if held : t.node? l = some .directory then (t.add l name (.file c) h held, .ok ())
        else (t, .error .notFound)

/-- Write a file, after making the directories on the way to it. -/
def write (t : FileTree) (here : Location) (p : Text) (c : Content) : Change :=
  match Path.parent? p with
  | some (x :: up) =>
    match t.makeDirectories here (x :: up) with
    | (held, .ok ()) => held.writeInPlace here p c
    | (held, .error e) => (held, .error e)
  | _ => t.writeInPlace here p c

end FileTree
end TemplateDirectives
