/-
  ClassLint.Registry.Cache

  Remembered values, one for each slot.  A slot stands for a declared
  configuration and a key for the state of its files: as long as a slot is
  asked for with the same key, its remembered instance is given out again; a
  new key replaces it.
-/

import ClassLint.Shared

namespace ClassLint

/-- Remembered values of type `α`, by slots and keys of type `κ`. -/
structure SlotCache (κ α : Type) where
  /-- For each slot its latest key and the instance that was made for it. -/
  entries : List (κ × κ × Shared α)
  /-- The number of instances made. -/
  made : Nat

namespace SlotCache

variable {κ α : Type} [BEq κ]

def empty : SlotCache κ α := ⟨[], 0⟩

instance : Inhabited (SlotCache κ α) := ⟨empty⟩

def lookup? (cache : SlotCache κ α) (slot : κ) : Option (κ × Shared α) :=
  cache.entries.lookup slot

/-- Put an entry into a slot, in the place of the one it holds. -/
def replace (slot : κ) (entry : κ × Shared α) :
    List (κ × κ × Shared α) → List (κ × κ × Shared α)
  | [] => [(slot, entry)]
  | held :: rest =>
    if slot == held.1 then (slot, entry) :: rest else held :: replace slot entry rest

def get (cache : SlotCache κ α) (slot key : κ) (make : Unit → α) :
    Shared α × SlotCache κ α :=
  let new : Unit → Shared α × SlotCache κ α := fun _ =>
    let made : Shared α := ⟨cache.made, make ()⟩
    (made, ⟨replace slot (key, made) cache.entries, cache.made + 1⟩)
  match cache.lookup? slot with
  -- an instance with another key loses its slot
  | some (held, found) => if held == key then (found, cache) else new ()
  | none => new ()

/-- Forget every entry.  Instances made before keep their numbers. -/
def clear (cache : SlotCache κ α) : SlotCache κ α := { cache with entries := [] }

def size (cache : SlotCache κ α) : Nat := cache.entries.length

/-- Some slot holds the instance of this number. -/
def holds (cache : SlotCache κ α) (id : Nat) : Bool :=
  cache.entries.any fun e => e.2.2.id == id

end SlotCache

end ClassLint
