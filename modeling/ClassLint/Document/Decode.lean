/-
  ClassLint.Document.Decode

  Decoding the values of a configuration file.  Where a value is decoded that
  an alias stands for, the marked value is looked up; that may be done only so
  many times, since aliases inside marked values can make a small file stand
  for a huge value, or for an endless one.
-/

import Std.Data.TreeMap
import ClassLint.Document

namespace ClassLint

namespace Document

/-- The values of a file by their marks. -/
abbrev Marks := Std.TreeMap Nat Document

/-- A value together with what its aliases stand for. -/
structure Graph where
  root : Document
  marks : Marks := ∅

/-- Decoding knows the marked values and how many aliases may still be followed,
    and may fail. -/
abbrev Decode (α : Type) := ReaderT Marks (StateT Nat Option) α

/-- The value that a value stands for, with its tag.  A marked value is no alias. -/
def target : Document → Decode Document
  | .alias mark => do
    match ← get with
    | 0 => failure
    | budget + 1 =>
      set budget
      (← read)[mark]?
  | d => pure d

def follow (d : Document) : Decode Document := do
  return (← target d).untagged

/-- Decode a value with what its aliases stand for.  For each part of the file
    a hundred aliases may be followed. -/
def Graph.decode? {α : Type} (g : Graph) (decode : Document → Decode α) : Option α :=
  (((decode g.root).run g.marks).run (100 * g.root.size)).map (·.1)

def decode? {α : Type} (d : Document) (decode : Document → Decode α) : Option α :=
  Graph.decode? ⟨d, ∅⟩ decode

end Document

end ClassLint
