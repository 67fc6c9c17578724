/-
Reading a whole settings file.

A file is a list of lines: blank ones, headers and assignments.  Values nest, so
the readers recurse on `fuel`, which the length of the file bounds, and on the
number of brackets that may still be opened.
-/
import TemplateDirectives.Toml.Scalar

namespace TemplateDirectives
namespace Toml

/-- Skip blanks, line ends and comments.  Inside a comment `comment` is set. -/
def skipLines? (comment : Bool) : Text → Option Text
  | [] => some []
  | '\n' :: rest => skipLines? false rest
  | '\r' :: '\n' :: rest => skipLines? false rest
  | c :: rest =>
    if comment then if isControl c then none else skipLines? true rest
    else if isSpace c then skipLines? false rest
    else if c = '#' then skipLines? true rest
    else some (c :: rest)

/-- Skip to the next line.  Nothing but blanks and a comment may stand before
it. -/
def nextLine? (t : Text) : Option Text :=
  match t.dropWhile isSpace with
  | [] => some []
  | '\n' :: rest => skipLines? false rest
  | '\r' :: '\n' :: rest => skipLines? false rest
  | '#' :: rest => skipLines? true rest
  | _ => none

def isKeyChar (c : Char) : Bool := c.isAlphanum || c == '_' || c == '-'

def readKeyPart? (t : Text) : Option (Text × Text) :=
  match t with
  | '"' :: rest => readBasic? rest
  | '\'' :: rest => readLiteral? rest
  | _ =>
    let key := t.takeWhile isKeyChar
    if key = [] then none else some (key, t.drop key.length)

/-- Read a key, whose parts dots separate, and the blanks after it. -/
def readKey? : (fuel : Nat) → Text → Option (List Text × Text)
  | 0, _ => none
  | fuel + 1, t => do
    let (key, rest) ← readKeyPart? (t.dropWhile isSpace)
    match rest.dropWhile isSpace with
    | '.' :: rest => do
      let (keys, rest) ← readKey? fuel rest
      return (key :: keys, rest)
    | rest => return ([key], rest)

mutual

/-- Read a value.  At most `nesting` brackets may be open inside one another. -/
def readValue? (fuel nesting : Nat) (t : Text) : Option (Value × Text) :=
  match fuel with
  | 0 => none
  | fuel + 1 =>
    match t with
    | '[' :: rest =>
      if nesting = 0 then none
      else do
        let rest ← skipLines? false rest
        let (items, rest) ← readItems? fuel (nesting - 1) rest
        return (.array items, rest)
    | '\x7b' :: rest =>
      if nesting = 0 then none
      else do
        let rest ← skipLines? false rest
        let (entries, rest) ← readPairs? fuel (nesting - 1) [] rest
        return (.table .inline entries, rest)
    | '"' :: _ => (readString? t).map fun (s, rest) => (.text s, rest)
    | '\'' :: _ => (readString? t).map fun (s, rest) => (.text s, rest)
    | _ => readWord? t

/-- Read the items of an array up to its closing bracket. -/
def readItems? (fuel nesting : Nat) (t : Text) : Option (List Value × Text) :=
  match fuel with
  | 0 => none
  | fuel + 1 =>
    match t with
    | ']' :: rest => some ([], rest)
    | _ => do
      let (item, rest) ← readValue? fuel nesting t
      match ← skipLines? false rest with
      | ']' :: rest => return ([item], rest)
      | ',' :: rest => do
        let rest ← skipLines? false rest
        let (items, rest) ← readItems? fuel nesting rest
        return (item :: items, rest)
      | _ => none

/-- Read the assignments of an inline table up to its closing brace, into the
entries that were read before.  Lines may end anywhere but inside a key. -/
def readPairs? (fuel nesting : Nat) (entries : Entries) (t : Text) : Option (Entries × Text) :=
  match fuel with
  | 0 => none
  | fuel + 1 =>
    match t with
    | '\x7d' :: rest => some (entries, rest)
    | _ => do
      let (key, rest) ← readKey? t.length t
      let rest ← skipLines? false rest
      let rest ← Text.after? ['='] rest
      let rest ← skipLines? false rest
      let (value, rest) ← readValue? fuel nesting rest
      let entries ← Entries.assign? value key entries
      match ← skipLines? false rest with
      | '\x7d' :: rest => return (entries, rest)
      | ',' :: rest => do
        let rest ← skipLines? false rest
        readPairs? fuel nesting entries rest
      | _ => none

end

/-- The number of brackets that may be open inside one another. -/
def maxNesting : Nat := 80

/-- Read the key of a header up to its closing brackets, and go to the next
line. -/
def readHeader? (closing t : Text) : Option (List Text × Text) := do
  let (path, rest) ← readKey? t.length t
  let rest ← Text.after? closing rest
  let rest ← nextLine? rest
  return (path, rest)

/-- Read the lines of a file into the entries that were read before.  `path`
leads to the table that the last header has opened. -/
def readLines? (fuel : Nat) (path : List Text) (entries : Entries) (t : Text) : Option Entries :=
  match fuel with
  | 0 => none
  | fuel + 1 =>
    match t with
    | [] => some entries
    | '[' :: '[' :: rest => do
      let (path, rest) ← readHeader? [']', ']'] rest
      let entries ← Entries.openElement? path entries
      readLines? fuel path entries rest
    | '[' :: rest => do
      let (path, rest) ← readHeader? [']'] rest
      let entries ← Entries.openTable? path entries
      readLines? fuel path entries rest
    | _ => do
      let (key, rest) ← readKey? t.length t
      let rest ← Text.after? ['='] rest
      let (value, rest) ← readValue? (2 * t.length + 2) maxNesting (rest.dropWhile isSpace)
      let rest ← nextLine? rest
      let entries ← Entries.alongHeader? (Entries.assign? value key) path entries
      readLines? fuel path entries rest

/-- The byte order mark, which may begin a file. -/
def byteOrderMark : Char := '\uFEFF'

/-- Read a file.  There is no answer when it is malformed. -/
def parse? (t : Text) : Option Entries := do
  let t := (Text.after? [byteOrderMark] t).getD t
  let lines ← skipLines? false t
  readLines? (t.length + 1) [] [] lines

end Toml
end TemplateDirectives
