/-
  ClassLint.OrderedMap

  A map that remembers the order in which its keys first arrived.
-/

import Std.Data.TreeMap
import ClassLint.OrderedSet

namespace ClassLint

/-- A map whose keys are kept in the order of their first arrival. -/
structure OrderedMap (α β : Type) [Ord α] where
  keys : OrderedSet α
  values : Std.TreeMap α β

namespace OrderedMap

variable {α β : Type} [Ord α] [Std.TransOrd α] [Std.LawfulEqOrd α]

instance : EmptyCollection (OrderedMap α β) := ⟨⟨∅, ∅⟩⟩

instance : Inhabited (OrderedMap α β) := ⟨∅⟩

def get? (m : OrderedMap α β) (k : α) : Option β := m.values[k]?

/-- Replace the value of a key; a new key goes to the end. -/
def update (m : OrderedMap α β) (k : α) (f : Option β → β) : OrderedMap α β where
  keys := m.keys.insert k
  values := m.values.insert k (f (m.get? k))

/-- The entries, in the order of their keys' first arrival. -/
def toList (m : OrderedMap α β) : List (α × β) :=
  m.keys.toList.filterMap fun k => (m.get? k).map (k, ·)

def size (m : OrderedMap α β) : Nat := m.keys.size

theorem keys_update (m : OrderedMap α β) (k : α) (f : Option β → β) :
    (m.update k f).keys = m.keys.insert k := rfl

theorem get?_update [DecidableEq α] (m : OrderedMap α β) (k l : α) (f : Option β → β) :
    (m.update k f).get? l = if k = l then some (f (m.get? k)) else m.get? l := by
  simp only [update, get?, Std.TreeMap.getElem?_insert, Std.LawfulEqOrd.compare_eq_iff_eq]

end OrderedMap

end ClassLint
