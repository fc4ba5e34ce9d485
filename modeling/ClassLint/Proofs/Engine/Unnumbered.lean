/-
  ClassLint.Proofs.Engine.Unnumbered

  Caches without the numbers of their instances.  A number tells an instance from
  others and nothing else: what a cache gives out, and what it remembers
  afterwards, does not depend on the numbers that it has given so far.
-/

import ClassLint.Engine

namespace ClassLint

/-- An instance without its number. -/
def Shared.unnumbered {α : Type} (x : Shared α) : Shared α := { x with id := 0 }

namespace ResolutionCache

/-- The resolutions without numbers. -/
def unnumbered (cache : ResolutionCache) : ResolutionCache where
  lifetime := cache.lifetime
  entries := cache.entries.map fun entry => { entry with files := entry.files.unnumbered }
  made := 0

theorem find?_unnumbered (patterns : List Text) (cwd : Path) (entries : List CachedResolution) :
    (entries.map fun entry => { entry with files := entry.files.unnumbered }).find?
        (isFor patterns cwd)
      = (entries.find? (isFor patterns cwd)).map fun entry =>
          { entry with files := entry.files.unnumbered } := by
  rw [List.find?_map]
  rfl

theorem lookup?_unnumbered (cache : ResolutionCache) (now : Nat) (patterns : List Text)
    (cwd : Path) :
    cache.unnumbered.lookup? now patterns cwd
      = (cache.lookup? now patterns cwd).map Shared.unnumbered := by
  simp only [lookup?, unnumbered, find?_unnumbered]
  cases cache.entries.find? (isFor patterns cwd) with
  | none => rfl
  | some entry =>
    simp only [Option.map_some]
    by_cases hyoung : now - entry.resolvedAt < cache.lifetime <;> simp [hyoung]

/-- Resolving does not depend on numbers. -/
theorem resolve_unnumbered (cache : ResolutionCache) (now : Nat) (t : FileTree)
    (patterns : List Text) (cwd : Path) :
    (cache.unnumbered.resolve now t patterns cwd).1.value
        = (cache.resolve now t patterns cwd).1.value
      ∧ (cache.unnumbered.resolve now t patterns cwd).2.unnumbered
        = (cache.resolve now t patterns cwd).2.unnumbered := by
  unfold resolve
  rw [lookup?_unnumbered]
  by_cases hempty : patterns.isEmpty = true
  · simp [hempty, share, unnumbered, Shared.unnumbered, Function.comp_def]
  · simp only [hempty, Bool.false_eq_true, if_false]
    cases cache.lookup? now patterns cwd with
    | some files => simp [unnumbered, Shared.unnumbered, Function.comp_def]
    | none =>
      refine ⟨rfl, ?_⟩
      simp [share, unnumbered, Shared.unnumbered, List.filter_map, Function.comp_def, isFor]

end ResolutionCache

namespace SlotCache

variable {κ α : Type} [BEq κ]

/-- A slot without the number of its instance. -/
def bare (e : κ × κ × Shared α) : κ × κ × Shared α := (e.1, e.2.1, e.2.2.unnumbered)

/-- The slots without numbers. -/
def unnumbered (cache : SlotCache κ α) : SlotCache κ α := ⟨cache.entries.map bare, 0⟩

theorem lookup?_unnumbered (cache : SlotCache κ α) (slot : κ) :
    cache.unnumbered.lookup? slot
      = (cache.lookup? slot).map fun e => (e.1, e.2.unnumbered) := by
  simp only [lookup?, unnumbered]
  induction cache.entries with
  | nil => rfl
  | cons held rest ih =>
    rw [List.map_cons, List.lookup_cons, List.lookup_cons]
    have hslot : (bare held).1 = held.1 := rfl
    rw [hslot]
    cases slot == held.1 with
    | true => rfl
    | false => exact ih

theorem map_bare_replace (slot key : κ) (x : Shared α) (entries : List (κ × κ × Shared α)) :
    (replace slot (key, x) entries).map bare
      = replace slot (key, x.unnumbered) (entries.map bare) := by
  induction entries with
  | nil => rfl
  | cons held rest ih =>
    have hslot : (bare held).1 = held.1 := rfl
    rw [List.map_cons, replace, replace, hslot]
    split
    · rfl
    · rw [List.map_cons, ih]

/-- What a slot gives does not depend on numbers. -/
theorem get_congr {cache cache' : SlotCache κ α} (h : cache.unnumbered = cache'.unnumbered)
    (slot key : κ) {make make' : Unit → α} (hmake : make () = make' ()) :
    (cache.get slot key make).1.value = (cache'.get slot key make').1.value
      ∧ (cache.get slot key make).2.unnumbered = (cache'.get slot key make').2.unnumbered := by
  have hentries : cache.entries.map bare = cache'.entries.map bare :=
    congrArg SlotCache.entries h
  have hreplace : (replace slot (key, ⟨cache.made, make ()⟩) cache.entries).map bare
      = (replace slot (key, ⟨cache'.made, make' ()⟩) cache'.entries).map bare := by
    rw [map_bare_replace, map_bare_replace, hentries, hmake]
    rfl
  have hnew : (SlotCache.mk (replace slot (key, ⟨cache.made, make ()⟩) cache.entries)
        (cache.made + 1)).unnumbered
      = (SlotCache.mk (replace slot (key, ⟨cache'.made, make' ()⟩) cache'.entries)
        (cache'.made + 1)).unnumbered := congrArg (SlotCache.mk · 0) hreplace
  have hlookup : (cache.lookup? slot).map (fun e => (e.1, e.2.unnumbered))
      = (cache'.lookup? slot).map fun e => (e.1, e.2.unnumbered) := by
    rw [← lookup?_unnumbered, ← lookup?_unnumbered, h]
  unfold get
  -- both slots hold an entry or neither does, for look-ups agree up to numbers
  cases hfound : cache.lookup? slot with
  | none =>
    cases hfound' : cache'.lookup? slot with
    | none => exact ⟨hmake, hnew⟩
    | some entry => simp [hfound, hfound'] at hlookup
  | some entry =>
    cases hfound' : cache'.lookup? slot with
    | none => simp [hfound, hfound'] at hlookup
    | some entry' =>
      obtain ⟨held, found⟩ := entry
      obtain ⟨held', found'⟩ := entry'
      simp only [hfound, hfound', Option.map_some, Option.some.injEq, Prod.mk.injEq] at hlookup
      obtain ⟨rfl, hvalue⟩ := hlookup
      simp only
      by_cases hkey : (held == key) = true
      · rw [if_pos hkey, if_pos hkey]
        exact ⟨(Shared.mk.inj hvalue).2, h⟩
      · rw [if_neg hkey, if_neg hkey]
        exact ⟨hmake, hnew⟩

end SlotCache

end ClassLint
