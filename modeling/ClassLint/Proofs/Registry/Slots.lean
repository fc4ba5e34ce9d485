/-
  ClassLint.Proofs.Registry.Slots

  The history of a slot cache.  What a cache holds after any requests and resets
  can be told from what it gave out alone: for each slot that was asked for since
  the last reset the instance of its latest request, and nothing else.
-/

import ClassLint.Registry.Cache
import Mathlib.Data.List.Basic

namespace ClassLint.SlotCache

variable {κ α : Type}

/-! ## Histories -/

/-- A step of a cache: a request with the function that makes the value, or a reset. -/
inductive Step (κ α : Type) where
  | get (slot key : κ) (make : Unit → α)
  | clear

/-- What a step did. -/
inductive Event (κ α : Type) where
  | given (slot key : κ) (x : Shared α)
  | cleared

/-- A cache and what happened to it, the newest event first. -/
structure History (κ α : Type) where
  cache : SlotCache κ α
  events : List (Event κ α)

/-- The key and the instance of the latest request for a slot since the last reset. -/
def latest? [BEq κ] (slot : κ) : List (Event κ α) → Option (κ × Shared α)
  | [] => none
  | .cleared :: _ => none
  | .given asked key x :: before => if slot == asked then some (key, x) else latest? slot before

section

variable [BEq κ]

def History.next (h : History κ α) : Step κ α → History κ α
  | .get slot key make =>
    let (x, cache) := h.cache.get slot key make
    ⟨cache, .given slot key x :: h.events⟩
  | .clear => ⟨h.cache.clear, .cleared :: h.events⟩

/-- The history of a new cache after several steps. -/
def History.after (steps : List (Step κ α)) : History κ α :=
  steps.foldl next ⟨empty, []⟩

/-! ## Entries -/

theorem mem_replace {slot : κ} {entry : κ × Shared α} {entries : List (κ × κ × Shared α)}
    {e : κ × κ × Shared α} (h : e ∈ replace slot entry entries) :
    e = (slot, entry) ∨ e ∈ entries := by
  induction entries with
  | nil => exact Or.inl (by simpa [replace] using h)
  | cons held rest ih =>
    unfold replace at h
    split at h
    · rcases List.mem_cons.mp h with h | h
      · exact Or.inl h
      · exact Or.inr (List.mem_cons_of_mem _ h)
    · rcases List.mem_cons.mp h with h | h
      · exact Or.inr (h ▸ List.mem_cons_self)
      · rcases ih h with h | h
        · exact Or.inl h
        · exact Or.inr (List.mem_cons_of_mem _ h)

end

variable [BEq κ] [LawfulBEq κ]

theorem lookup_replace (slot other : κ) (entry : κ × Shared α)
    (entries : List (κ × κ × Shared α)) :
    (replace slot entry entries).lookup other
      = if other == slot then some entry else entries.lookup other := by
  induction entries with
  | nil =>
    rw [replace, List.lookup_cons, List.lookup_nil]
    cases other == slot <;> rfl
  | cons held rest ih =>
    obtain ⟨heldSlot, heldEntry⟩ := held
    unfold replace
    by_cases hslot : slot = heldSlot
    · subst hslot
      rw [if_pos BEq.rfl, List.lookup_cons, List.lookup_cons]
      cases other == slot <;> rfl
    · have hne : ¬(slot == heldSlot) = true := fun h => hslot (eq_of_beq h)
      rw [if_neg hne, List.lookup_cons, List.lookup_cons, ih]
      -- the entry in front is for neither slot or for the one that is looked up
      by_cases hother : other = heldSlot
      · subst hother
        have hne' : ¬(other == slot) = true := fun h => hslot (eq_of_beq h).symm
        rw [BEq.rfl]
        exact (if_neg hne').symm
      · have hne' : (other == heldSlot) = false := beq_false_of_ne hother
        rw [hne']

theorem nodup_keys_replace (slot : κ) (entry : κ × Shared α)
    {entries : List (κ × κ × Shared α)} (h : (entries.map Prod.fst).Nodup) :
    ((replace slot entry entries).map Prod.fst).Nodup := by
  induction entries with
  | nil => simp [replace]
  | cons held rest ih =>
    obtain ⟨hheld, hrest⟩ := List.nodup_cons.mp h
    unfold replace
    split
    · next hslot =>
      rw [← eq_of_beq hslot] at hheld
      exact List.nodup_cons.mpr ⟨hheld, hrest⟩
    · next hslot =>
      refine List.nodup_cons.mpr ⟨?_, ih hrest⟩
      intro hmem
      obtain ⟨e, he, heq⟩ := List.mem_map.mp hmem
      rcases mem_replace he with rfl | he
      · exact hslot (heq ▸ BEq.rfl)
      · exact hheld (heq ▸ List.mem_map_of_mem he)

theorem mem_of_lookup? {cache : SlotCache κ α} {slot : κ} {entry : κ × Shared α}
    (h : cache.lookup? slot = some entry) : (slot, entry) ∈ cache.entries := by
  unfold lookup? at h
  generalize cache.entries = entries at h
  induction entries with
  | nil => exact absurd h (by simp)
  | cons held rest ih =>
    rw [List.lookup_cons] at h
    cases hslot : slot == held.1 with
    | true =>
      rw [hslot] at h
      have hentry : held.2 = entry := by simpa using h
      rw [eq_of_beq hslot, ← hentry]
      exact List.mem_cons_self
    | false =>
      rw [hslot] at h
      exact List.mem_cons_of_mem _ (ih h)

/-- Where every slot has one entry, that entry is the one that is looked up. -/
theorem lookup_eq_some_iff_mem {slot : κ} {entry : κ × Shared α}
    {entries : List (κ × κ × Shared α)} (h : (entries.map Prod.fst).Nodup) :
    entries.lookup slot = some entry ↔ (slot, entry) ∈ entries := by
  induction entries with
  | nil => simp
  | cons held rest ih =>
    obtain ⟨hheld, hrest⟩ := List.nodup_cons.mp h
    rw [List.lookup_cons, List.mem_cons]
    by_cases hslot : slot = held.1
    · rw [hslot, BEq.rfl]
      have hnot : (held.1, entry) ∉ rest := fun hmem =>
        hheld (List.mem_map.mpr ⟨_, hmem, rfl⟩)
      simp only [Option.some.injEq, hnot, or_false]
      exact ⟨fun h => by rw [← h], fun h => by rw [← h]⟩
    · have hne : (slot == held.1) = false := beq_false_of_ne hslot
      have hnot : (slot, entry) ≠ held := fun heq => hslot (by rw [← heq])
      rw [hne, ih hrest]
      simp [hnot]

/-! ## Requests -/

/-- A request under the key that the slot holds gives the instance that it holds,
    and `make` is not asked. -/
theorem get_of_lookup? {cache : SlotCache κ α} {slot key : κ} {x : Shared α}
    (h : cache.lookup? slot = some (key, x)) (make : Unit → α) :
    cache.get slot key make = (x, cache) := by
  unfold get
  rw [h]
  exact if_pos BEq.rfl

/-- Any other request gives what `make` makes, under a number of its own. -/
theorem get_of_lookup?_ne {cache : SlotCache κ α} {slot key : κ}
    (h : ∀ x, cache.lookup? slot ≠ some (key, x)) (make : Unit → α) :
    cache.get slot key make = (⟨cache.made, make ()⟩,
      ⟨replace slot (key, ⟨cache.made, make ()⟩) cache.entries, cache.made + 1⟩) := by
  unfold get
  cases hlookup : cache.lookup? slot with
  | none => rfl
  | some entry =>
    obtain ⟨held, found⟩ := entry
    have hkey : ¬(held == key) = true := fun heq => h found (by rw [hlookup, eq_of_beq heq])
    exact if_neg hkey

/-- What `get` gives is held under the key already, and nothing changes, or it is
    made anew and takes the slot. -/
theorem get_cases (cache : SlotCache κ α) (slot key : κ) (make : Unit → α) :
    ((slot, key, (cache.get slot key make).1) ∈ cache.entries
        ∧ (cache.get slot key make).2 = cache)
      ∨ ((cache.get slot key make).1.value = make ()
        ∧ (cache.get slot key make).2.entries
          = replace slot (key, (cache.get slot key make).1) cache.entries) := by
  by_cases hheld : ∃ x, cache.lookup? slot = some (key, x)
  · obtain ⟨x, hx⟩ := hheld
    rw [get_of_lookup? hx]
    exact Or.inl ⟨mem_of_lookup? hx, rfl⟩
  · rw [get_of_lookup?_ne (not_exists.mp hheld)]
    exact Or.inr ⟨rfl, rfl⟩

/-- After a request its slot holds its key and what it gave; other slots hold what
    they held. -/
theorem lookup?_get (cache : SlotCache κ α) (slot key other : κ) (make : Unit → α) :
    (cache.get slot key make).2.lookup? other
      = if other == slot then some (key, (cache.get slot key make).1)
        else cache.lookup? other := by
  by_cases hheld : ∃ x, cache.lookup? slot = some (key, x)
  · obtain ⟨x, hx⟩ := hheld
    rw [get_of_lookup? hx]
    by_cases hslot : other = slot
    · rw [hslot, hx, BEq.rfl, if_pos rfl]
    · rw [beq_false_of_ne hslot, if_neg Bool.false_ne_true]
  · rw [get_of_lookup?_ne (not_exists.mp hheld)]
    exact lookup_replace slot other _ cache.entries

theorem lookup?_get_of_ne (cache : SlotCache κ α) {slot other : κ} (h : other ≠ slot) (key : κ)
    (make : Unit → α) :
    (cache.get slot key make).2.lookup? other = cache.lookup? other := by
  rw [lookup?_get, beq_false_of_ne h, if_neg Bool.false_ne_true]

/-! ## What a history leaves -/

/-- The cache holds what the events say, and has numbered every instance of them. -/
structure History.Kept (h : History κ α) : Prop where
  lookup? : ∀ slot, h.cache.lookup? slot = latest? slot h.events
  nodup : (h.cache.entries.map Prod.fst).Nodup
  id_lt : ∀ slot key x, Event.given slot key x ∈ h.events → x.id < h.cache.made

omit [LawfulBEq κ] in
theorem id_lt_of_latest? {slot key : κ} {x : Shared α} {events : List (Event κ α)} {n : Nat}
    (h : latest? slot events = some (key, x))
    (hid : ∀ slot key x, Event.given slot key x ∈ events → x.id < n) : x.id < n := by
  induction events with
  | nil => exact absurd h (by simp [latest?])
  | cons event before ih =>
    cases event with
    | cleared => exact absurd h (by simp [latest?])
    | given asked askedKey y =>
      unfold latest? at h
      split at h
      · obtain ⟨-, rfl⟩ := Prod.mk.inj (Option.some.inj h)
        exact hid asked askedKey y List.mem_cons_self
      · exact ih h fun slot key x hx => hid slot key x (List.mem_cons_of_mem _ hx)

namespace History

variable {h : History κ α}

omit [LawfulBEq κ] in
theorem kept_start : (History.mk (κ := κ) (α := α) empty []).Kept where
  lookup? _ := rfl
  nodup := List.nodup_nil
  id_lt _ _ _ hgiven := absurd hgiven List.not_mem_nil

omit [LawfulBEq κ] in
theorem Kept.clear (hkept : h.Kept) : (h.next .clear).Kept where
  lookup? _ := rfl
  nodup := List.nodup_nil
  id_lt slot key x hgiven := by
    rcases List.mem_cons.mp hgiven with heq | hgiven
    · exact absurd heq (by simp)
    · exact hkept.id_lt slot key x hgiven

theorem Kept.get (hkept : h.Kept) (slot key : κ) (make : Unit → α) :
    (h.next (.get slot key make)).Kept where
  lookup? other := by
    simp only [next, latest?]
    rw [lookup?_get, hkept.lookup? other]
  nodup := by
    simp only [next]
    by_cases hheld : ∃ x, h.cache.lookup? slot = some (key, x)
    · obtain ⟨x, hx⟩ := hheld
      rw [get_of_lookup? hx]
      exact hkept.nodup
    · rw [get_of_lookup?_ne (not_exists.mp hheld)]
      exact nodup_keys_replace slot _ hkept.nodup
  id_lt asked askedKey x hgiven := by
    simp only [next] at hgiven ⊢
    by_cases hheld : ∃ y, h.cache.lookup? slot = some (key, y)
    · obtain ⟨y, hy⟩ := hheld
      rw [get_of_lookup? hy] at hgiven ⊢
      rcases List.mem_cons.mp hgiven with heq | hgiven
      · -- the instance was given out at an earlier request
        obtain ⟨rfl, rfl, rfl⟩ := Event.given.inj heq
        exact id_lt_of_latest? (hkept.lookup? asked ▸ hy) hkept.id_lt
      · exact hkept.id_lt asked askedKey x hgiven
    · rw [get_of_lookup?_ne (not_exists.mp hheld)] at hgiven ⊢
      rcases List.mem_cons.mp hgiven with heq | hgiven
      · obtain ⟨-, -, rfl⟩ := Event.given.inj heq
        exact Nat.lt_succ_self _
      · exact Nat.lt_succ_of_lt (hkept.id_lt asked askedKey x hgiven)

theorem kept_foldl (hkept : h.Kept) (steps : List (Step κ α)) : (steps.foldl next h).Kept := by
  induction steps generalizing h with
  | nil => exact hkept
  | cons step rest ih =>
    cases step with
    | get slot key make => exact ih (hkept.get slot key make)
    | clear => exact ih hkept.clear

theorem kept_after (steps : List (Step κ α)) : (after steps).Kept := kept_foldl kept_start steps

/-- The entries of a cache are the latest requests. -/
theorem Kept.mem_entries_iff (hkept : h.Kept) (slot : κ) (entry : κ × Shared α) :
    (slot, entry) ∈ h.cache.entries ↔ latest? slot h.events = some entry := by
  rw [← lookup_eq_some_iff_mem hkept.nodup, ← hkept.lookup? slot]
  rfl

/-- The instances that a cache holds are those of the latest requests. -/
theorem Kept.holds_iff (hkept : h.Kept) (id : Nat) :
    h.cache.holds id = true ↔ ∃ slot key x, latest? slot h.events = some (key, x) ∧ x.id = id := by
  unfold holds
  rw [List.any_eq_true]
  constructor
  · rintro ⟨⟨slot, key, x⟩, hmem, hid⟩
    exact ⟨slot, key, x, (hkept.mem_entries_iff slot _).mp hmem, eq_of_beq hid⟩
  · rintro ⟨slot, key, x, hlatest, rfl⟩
    exact ⟨(slot, key, x), (hkept.mem_entries_iff slot _).mpr hlatest, BEq.rfl⟩

end History

end ClassLint.SlotCache
