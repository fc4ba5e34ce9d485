/-
  ClassLint.Proofs.Json.Keys

  Values whose objects hold each key once.  Merging repeated keys gives such a
  value, and leaves one that is such a value as it is.
-/

import ClassLint.Json

namespace ClassLint.Json

mutual

/-- Every object in the value holds each key once. -/
def distinctKeys : Json → Bool
  | array items => distinctItems items
  | object entries => distinctEntries entries
  | _ => true

/-- `distinctKeys` for every item of an array. -/
def distinctItems : List Json → Bool
  | [] => true
  | item :: rest => distinctKeys item && distinctItems rest

/-- The keys are distinct, and `distinctKeys` holds for every value. -/
def distinctEntries : List (Text × Json) → Bool
  | [] => true
  | (key, value) :: rest =>
    rest.all (fun e => e.1 != key) && distinctKeys value && distinctEntries rest

end

/-! ## Merging changes nothing -/

theorem find?_eq_none_of_all {entries : List (Text × Json)} {key : Text}
    (h : (entries.all fun e => e.1 != key) = true) :
    (entries.find? fun e => e.1 == key) = none := by
  rw [List.find?_eq_none]
  intro e he hkey
  have hne : (e.1 != key) = true := List.all_eq_true.mp h e he
  rw [bne, hkey] at hne
  exact Bool.noConfusion hne

mutual

theorem dedup_of_distinctKeys : ∀ {j : Json}, j.distinctKeys = true → j.dedup = j
  | null, _ | bool _, _ | number _, _ | text _, _ => rfl
  | array _, h => congrArg array (dedupItems_of_distinctItems h)
  | object _, h => congrArg object (dedupEntries_of_distinctEntries h)

theorem dedupItems_of_distinctItems :
    ∀ {items : List Json}, distinctItems items = true → dedupItems items = items
  | [], _ => rfl
  | item :: rest, h => by
    simp only [distinctItems, Bool.and_eq_true] at h
    rw [dedupItems, dedup_of_distinctKeys h.1, dedupItems_of_distinctItems h.2]

theorem dedupEntries_of_distinctEntries :
    ∀ {entries : List (Text × Json)}, distinctEntries entries = true →
      dedupEntries entries = entries
  | [], _ => rfl
  | (key, value) :: rest, h => by
    simp only [distinctEntries, Bool.and_eq_true] at h
    obtain ⟨⟨hkey, hvalue⟩, hrest⟩ := h
    rw [dedupEntries, dedupEntries_of_distinctEntries hrest]
    simp only [find?_eq_none_of_all hkey, dedup_of_distinctKeys hvalue]

end

/-! ## Merging makes keys distinct -/

theorem distinctEntries_filter {entries : List (Text × Json)} (p : Text × Json → Bool)
    (h : distinctEntries entries = true) : distinctEntries (entries.filter p) = true := by
  induction entries with
  | nil => rfl
  | cons e rest ih =>
    simp only [distinctEntries, Bool.and_eq_true] at h
    obtain ⟨⟨hkey, hvalue⟩, hrest⟩ := h
    rw [List.filter_cons]
    split
    · simp only [distinctEntries, Bool.and_eq_true]
      refine ⟨⟨?_, hvalue⟩, ih hrest⟩
      exact List.all_eq_true.mpr fun x hx =>
        List.all_eq_true.mp hkey x ((List.mem_filter.mp hx).1)
    · exact ih hrest

theorem distinctKeys_of_mem {entries : List (Text × Json)} (h : distinctEntries entries = true)
    {e : Text × Json} (he : e ∈ entries) : e.2.distinctKeys = true := by
  induction entries with
  | nil => exact absurd he (List.not_mem_nil)
  | cons x rest ih =>
    simp only [distinctEntries, Bool.and_eq_true] at h
    cases he with
    | head => exact h.1.2
    | tail _ hrest => exact ih h.2 hrest

mutual

theorem distinctKeys_dedup : ∀ j : Json, j.dedup.distinctKeys = true
  | null | bool _ | number _ | text _ => rfl
  | array items => distinctItems_dedupItems items
  | object entries => distinctEntries_dedupEntries entries

theorem distinctItems_dedupItems : ∀ items : List Json, distinctItems (dedupItems items) = true
  | [] => rfl
  | item :: rest => by
    rw [dedupItems, distinctItems, distinctKeys_dedup item, distinctItems_dedupItems rest]
    rfl

theorem distinctEntries_dedupEntries :
    ∀ entries : List (Text × Json), distinctEntries (dedupEntries entries) = true
  | [] => rfl
  | (key, value) :: rest => by
    have hlater := distinctEntries_dedupEntries rest
    rw [dedupEntries]
    cases hfind : (dedupEntries rest).find? fun e => e.1 == key with
    | none =>
      -- the key is new
      have hkey : ((dedupEntries rest).all fun e => e.1 != key) = true := by
        rw [List.all_eq_true]
        intro e he
        have hne := List.find?_eq_none.mp hfind e he
        simpa [bne] using hne
      simp only [distinctEntries, hkey, distinctKeys_dedup value, hlater, Bool.and_self]
    | some e =>
      -- the later value takes the place of this one
      have hkey : (((dedupEntries rest).filter fun e => e.1 != key).all fun e => e.1 != key)
          = true := by
        rw [List.all_eq_true]
        exact fun x hx => (List.mem_filter.mp hx).2
      have hvalue := distinctKeys_of_mem hlater (List.mem_of_find?_eq_some hfind)
      simp only [distinctEntries, hkey, hvalue, distinctEntries_filter _ hlater, Bool.and_self]

end

end ClassLint.Json
