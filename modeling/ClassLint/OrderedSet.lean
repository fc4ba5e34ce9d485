/-
  ClassLint.OrderedSet

  A set that remembers the order in which its members first arrived.  The
  order is the list `toList`; a search tree beside it answers membership.  The
  type carries the two facts that tie them together: the tree and the list
  have the same members, and the list names each of them once.
-/

import Std.Data.TreeSet

namespace ClassLint

/-- A set whose members are kept in the order of their first arrival. -/
structure OrderedSet (α : Type) [Ord α] where
  /-- The members, earliest first. -/
  items : Array α
  /-- The same members, arranged for look-up. -/
  index : Std.TreeSet α
  mem_index : ∀ x, x ∈ index ↔ x ∈ items.toList
  nodup : items.toList.Nodup

namespace OrderedSet

variable {α : Type} [Ord α]

/-- The members, earliest first. -/
def toList (s : OrderedSet α) : List α := s.items.toList

def size (s : OrderedSet α) : Nat := s.items.size

def isEmpty (s : OrderedSet α) : Bool := s.items.isEmpty

def contains (s : OrderedSet α) (x : α) : Bool := s.index.contains x

variable [Std.TransOrd α] [Std.LawfulEqOrd α]

def empty : OrderedSet α where
  items := #[]
  index := ∅
  mem_index := by simp [Std.TreeSet.not_mem_emptyc]
  nodup := by simp

instance : EmptyCollection (OrderedSet α) := ⟨empty⟩

instance : Inhabited (OrderedSet α) := ⟨empty⟩

/-- Add a member at the end; a member already present keeps its place. -/
def insert (s : OrderedSet α) (x : α) : OrderedSet α :=
  if h : s.index.contains x then s
  else
    { items := s.items.push x
      index := s.index.insert x
      mem_index := by
        intro y
        rw [Std.TreeSet.mem_insert, Std.LawfulEqOrd.compare_eq_iff_eq, s.mem_index y]
        simp only [Array.toList_push, List.mem_append, List.mem_singleton]
        constructor
        · rintro (h | h)
          · exact Or.inr h.symm
          · exact Or.inl h
        · rintro (h | h)
          · exact Or.inr h
          · exact Or.inl h.symm
      nodup := by
        have hx : x ∉ s.items.toList := by
          rw [← s.mem_index x, ← Std.TreeSet.contains_iff_mem]
          simpa using h
        rw [Array.toList_push, List.nodup_append]
        refine ⟨s.nodup, by simp, ?_⟩
        intro a ha b hb
        simp only [List.mem_singleton] at hb
        subst hb
        intro hab
        exact hx (hab ▸ ha) }

def insertAll (s : OrderedSet α) (xs : List α) : OrderedSet α :=
  xs.foldl insert s

/-- The distinct members of a list, in the order of their first occurrence. -/
def ofList (xs : List α) : OrderedSet α :=
  insertAll empty xs

/-! ## Laws of the view -/

omit [Std.TransOrd α] [Std.LawfulEqOrd α] in
theorem contains_iff (s : OrderedSet α) (x : α) : s.contains x = true ↔ x ∈ s.toList := by
  rw [contains, Std.TreeSet.contains_iff_mem, s.mem_index, toList]

omit [Std.TransOrd α] [Std.LawfulEqOrd α] in
@[simp]
theorem toList_empty : (empty : OrderedSet α).toList = [] := rfl

theorem toList_insert [DecidableEq α] (s : OrderedSet α) (x : α) :
    (s.insert x).toList = if x ∈ s.toList then s.toList else s.toList ++ [x] := by
  unfold insert
  split
  · next h =>
    have hx : x ∈ s.toList := (s.contains_iff x).1 h
    simp [hx]
  · next h =>
    have hx : x ∉ s.toList := fun hm => h ((s.contains_iff x).2 hm)
    rw [if_neg hx]
    simp [toList]

theorem mem_insert (s : OrderedSet α) (x y : α) :
    y ∈ (s.insert x).toList ↔ y ∈ s.toList ∨ y = x := by
  unfold insert
  split
  · next h =>
    constructor
    · exact Or.inl
    · rintro (hy | rfl)
      · exact hy
      · exact (s.contains_iff y).1 h
  · simp [toList]

theorem mem_insertAll (s : OrderedSet α) (xs : List α) (y : α) :
    y ∈ (s.insertAll xs).toList ↔ y ∈ s.toList ∨ y ∈ xs := by
  induction xs generalizing s with
  | nil => simp [insertAll]
  | cons x xs ih =>
    have h := ih (s.insert x)
    simp only [insertAll, List.foldl_cons] at h ⊢
    rw [h, mem_insert, List.mem_cons, or_assoc]

theorem mem_ofList (xs : List α) (y : α) : y ∈ (ofList xs).toList ↔ y ∈ xs := by
  simp [ofList, mem_insertAll]

omit [Std.TransOrd α] [Std.LawfulEqOrd α] in
theorem nodup_toList (s : OrderedSet α) : s.toList.Nodup := s.nodup

end OrderedSet

end ClassLint
