/-
Values of a settings file, and how tables are filled.

A file is a sequence of headers and assignments, and a table may be written in
several places.  What may be added where depends on how a table came about
(`TableKind`): a header opens a table once, dotted keys extend only tables that
no header has opened, and an inline table is complete as written.
-/
import TemplateDirectives.Text.Basic

namespace TemplateDirectives
namespace Toml

inductive TableKind where
  /-- A header of its own opened it. -/
  | opened
  /-- It is part of the path of a header, and nothing else has named it. -/
  | implied
  | dotted
  | inline
  deriving DecidableEq

/-- A value.  Numbers with a fraction, truth values and times are told apart
from other kinds, but nothing asks for what they say. -/
inductive Value where
  | text (t : Text)
  | integer (n : Int)
  | float
  | boolean
  | moment
  | array (items : List Value)
  /-- The tables that headers in double brackets open, the latest first. -/
  | tables (latestFirst : List (List (Text × Value)))
  | table (kind : TableKind) (entries : List (Text × Value))

/-- The entries of a table, in the order of their first mention. -/
abbrev Entries := List (Text × Value)

namespace Entries

/-- Replace the value of a key, or add the key. -/
def put (key : Text) (value : Value) : Entries → Entries
  | [] => [(key, value)]
  | (k, v) :: rest => if k = key then (k, value) :: rest else (k, v) :: put key value rest

/-- Add a key that is not there yet. -/
def addNew? (key : Text) (value : Value) (es : Entries) : Option Entries :=
  match es.lookup key with
  | none => some (put key value es)
  | some _ => none

/-- Change the table that a header's path leads to.  Tables on the way are made
when they are missing.  A path through an array of tables goes on in the latest
one. -/
def alongHeader? (change : Entries → Option Entries) : List Text → Entries → Option Entries
  | [], es => change es
  | key :: path, es =>
    match es.lookup key with
    | none => do
      let inner ← alongHeader? change path []
      return put key (.table .implied inner) es
    | some (.table kind inner) =>
      if kind = .inline then none
      else do
        let inner ← alongHeader? change path inner
        return put key (.table kind inner) es
    | some (.tables (latest :: earlier)) => do
      let latest ← alongHeader? change path latest
      return put key (.tables (latest :: earlier)) es
    | some _ => none

/-- Assign to a dotted key.  Tables on the way are made when they are missing,
and no header may have opened one of them.  From then on they are tables of
dotted keys, so no later header opens one either.  A key may pass through an
array of tables to a table in its latest one, but not assign to that one
itself. -/
def assign? (value : Value) : List Text → Entries → Option Entries
  | [], _ => none
  | [key], es => addNew? key value es
  | key :: path, es =>
    match es.lookup key with
    | none => do
      let inner ← assign? value path []
      return put key (.table .dotted inner) es
    | some (.table kind inner) =>
      if kind = .dotted ∨ kind = .implied then do
        let inner ← assign? value path inner
        return put key (.table .dotted inner) es
      else none
    | some (.tables (latest :: earlier)) =>
      if 2 ≤ path.length then do
        let latest ← assign? value path latest
        return put key (.tables (latest :: earlier)) es
      else none
    | some _ => none

/-- Open the table that a header in single brackets names. -/
def openTable? (path : List Text) (es : Entries) : Option Entries :=
  match path.getLast? with
  | none => none
  | some key =>
    alongHeader? (fun es =>
      match es.lookup key with
      | none => some (put key (.table .opened []) es)
      | some (.table .implied inner) => some (put key (.table .opened inner) es)
      | some _ => none) path.dropLast es

/-- Begin another table of the array that a header in double brackets names. -/
def openElement? (path : List Text) (es : Entries) : Option Entries :=
  match path.getLast? with
  | none => none
  | some key =>
    alongHeader? (fun es =>
      match es.lookup key with
      | none => some (put key (.tables [[]]) es)
      | some (.tables earlier) => some (put key (.tables ([] :: earlier)) es)
      | some _ => none) path.dropLast es

end Entries
end Toml
end TemplateDirectives
