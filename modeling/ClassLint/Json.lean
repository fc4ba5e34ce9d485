/-
  ClassLint.Json

  JSON values.  An object keeps its entries in the order they were written,
  repeated keys included, so that a reader of the value can tell a repeated
  field from a single one.  A number is an integer where it is written as one
  and fits 64 bits, and a binary floating-point number otherwise.
-/

import ClassLint.Text

namespace ClassLint

inductive JsonNumber where
  /-- An integer between -2^63 and 2^64 - 1. -/
  | integer (value : Int)
  /-- A finite binary64 number, given by its bits. -/
  | double (bits : UInt64)
deriving DecidableEq, Repr, Inhabited

inductive Json where
  | null
  | bool (value : Bool)
  | number (value : JsonNumber)
  | text (value : Text)
  | array (items : List Json)
  | object (entries : List (Text × Json))
deriving Repr, Inhabited

namespace Json

def ofNat (n : Nat) : Json := number (.integer n)

def texts (ts : List Text) : Json := array (ts.map text)

def record (fields : List (String × Json)) : Json :=
  object (fields.map fun f => (f.1.toList, f.2))

/-- The value of the last entry with this key: a later entry replaces an earlier one. -/
def field? (key : String) : Json → Option Json
  | object entries => (entries.reverse.find? fun e => e.1 == key.toList).map (·.2)
  | _ => none

mutual

/-- The value in which each object keeps only the last of several entries with
    one key, at the place of the first. -/
def dedup : Json → Json
  | array items => array (dedupItems items)
  | object entries => object (dedupEntries entries)
  | value => value

def dedupItems : List Json → List Json
  | [] => []
  | item :: rest => dedup item :: dedupItems rest

/-- `dedup` for each value of an object, after which repeated keys are merged. -/
def dedupEntries : List (Text × Json) → List (Text × Json)
  | [] => []
  | (key, value) :: rest =>
    let later := dedupEntries rest
    match later.find? fun e => e.1 == key with
    | some e => (key, e.2) :: later.filter fun e => e.1 != key
    | none => (key, dedup value) :: later

end

mutual

def same : Json → Json → Bool
  | null, null => true
  | bool a, bool b => a == b
  | number a, number b => a == b
  | text a, text b => a == b
  | array a, array b => sameItems a b
  | object a, object b => sameEntries a b
  | _, _ => false

def sameItems : List Json → List Json → Bool
  | [], [] => true
  | a :: as, b :: bs => same a b && sameItems as bs
  | _, _ => false

/-- Whether two objects hold the same entries in the same order. -/
def sameEntries : List (Text × Json) → List (Text × Json) → Bool
  | [], [] => true
  | (k, a) :: as, (l, b) :: bs => k == l && same a b && sameEntries as bs
  | _, _ => false

end

instance : BEq Json := ⟨same⟩

end Json

end ClassLint
