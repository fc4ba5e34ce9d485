/-
  ClassLint.Document

  A value of a configuration file, whichever format the file is written in.

  A format that quotes its texts says of every scalar what it is.  One that
  lets scalars stand without quotes does not: the same word may be meant as a
  text, a number or a truth value, and the place where it stands decides, or a
  tag.  Such a scalar is kept as it is written.

  A format may let a value stand in several places: it is marked in one, and
  aliases stand for it in the others.
-/

import ClassLint.Document.Tag
import ClassLint.Json.Reader

namespace ClassLint

inductive Document where
  | null
  | bool (value : Bool)
  /-- A number, with its value if it is a natural one. -/
  | number (natural? : Option Nat)
  | text (value : Text)
  /-- A scalar without quotes. -/
  | plain (value : Text)
  /-- Nothing, where a value could stand. -/
  | blank
  | list (items : List Document)
  | record (entries : List (Document × Document))
  | tagged (tag : Tag) (value : Document)
  /-- The value with this mark. -/
  | alias (mark : Nat)
  /-- What is well written and no value; it may stand where nothing is read. -/
  | flawed
deriving Inhabited

namespace Document

def untagged : Document → Document
  | tagged _ value => value
  | value => value

/-! ## Size -/

mutual

/-- The number of scalars, aliases, and starts and ends of lists and records. -/
def size : Document → Nat
  | list items => sizeItems items + 2
  | record entries => sizeEntries entries + 2
  | tagged _ value => size value
  | _ => 1

def sizeItems : List Document → Nat
  | [] => 0
  | item :: rest => size item + sizeItems rest

def sizeEntries : List (Document × Document) → Nat
  | [] => 0
  | (key, value) :: rest => size key + size value + sizeEntries rest

end

/-! ## Values of JSON files -/

mutual

def ofJson : Json → Document
  | .null => null
  | .bool value => bool value
  | .number _ => number none
  | .text value => text value
  | .array items => list (ofItems items)
  | .object entries => record (ofEntries entries)

def ofItems : List Json → List Document
  | [] => []
  | item :: rest => ofJson item :: ofItems rest

def ofEntries : List (Text × Json) → List (Document × Document)
  | [] => []
  | (key, value) :: rest => (text key, ofJson value) :: ofEntries rest

end

/-- Texts as values of a configuration file.  Flawed parts are kept, since they
    may stand where nothing is read. -/
def form : Json.Form Document where
  leaf := ofJson
  array := list
  object := fun entries => record (entries.map fun e => (text e.1, e.2))
  flawed? := flawed

end Document

end ClassLint
