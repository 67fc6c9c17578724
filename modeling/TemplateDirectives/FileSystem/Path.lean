/-
Paths as texts.

Slashes separate the parts of a path, and a path that begins with one is
absolute.  Joining and taking the parent are done on the text alone: nothing is
looked up and nothing is normalised, so a message shows a path as it was given.
-/
import TemplateDirectives.Text.Basic

namespace TemplateDirectives
namespace Path

def isAbsolute (p : Text) : Bool := p.head? == some '/'

/-- The path `p`, seen from the directory `base`. -/
def join (base p : Text) : Text :=
  if isAbsolute p then p
  else if base = [] ∨ base.getLast? = some '/' then base ++ p
  else base ++ '/' :: p

def parts (p : Text) : List Text := List.splitOn '/' p

/-- Parts that lead nowhere: the empty one and the single dot. -/
def isIdle (part : Text) : Bool := part = [] || part = ['.']

/-- Remove idle parts from the end.  Parts are given in reverse, and the very
first part of a relative path counts even when it is a dot. -/
def dropIdle (relative : Bool) : List Text → List Text
  | [] => []
  | [part] => if part = [] ∨ (part = ['.'] ∧ !relative) then [] else [part]
  | part :: earlier => if isIdle part then dropIdle relative earlier else part :: earlier

/-- The parts with slashes between them. -/
def ofParts (parts : List Text) : Text := ['/'].intercalate parts

/-- The path without its last part.  The root and the empty path have none. -/
def parent? (p : Text) : Option Text :=
  let relative := !isAbsolute p
  let body := if relative then p else p.drop 1
  match dropIdle relative (parts body).reverse with
  | [] => none
  | _ :: earlier =>
    let kept := ofParts (dropIdle relative earlier).reverse
    some (if relative then kept else '/' :: kept)

/-- The path, its parent, the parent's parent and so on.  Every parent is
shorter, so `fuel` need not exceed the length. -/
def ancestorsWithin : (fuel : Nat) → Text → List Text
  | 0, p => [p]
  | fuel + 1, p =>
    match parent? p with
    | none => [p]
    | some up => p :: ancestorsWithin fuel up

def ancestors (p : Text) : List Text := ancestorsWithin p.length p

end Path
end TemplateDirectives
