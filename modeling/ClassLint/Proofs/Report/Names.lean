/-
  ClassLint.Proofs.Report.Names

  Which names a report on a registry lists: first those that the files define
  and only stylesheets know, then all names of the registry.  Adding a class
  never removes one, so that the names of a report are those that were added,
  each at its first occurrence.
-/

import ClassLint.Report
import Mathlib.Data.List.Basic

namespace ClassLint

namespace OrderedMap

variable {α β γ : Type} [Ord α]

theorem mem_keys_of_mem_toList {m : OrderedMap α β} {k : α} {v : β} (h : (k, v) ∈ m.toList) :
    k ∈ m.keys.toList := by
  unfold toList at h
  obtain ⟨l, hl, hentry⟩ := List.mem_filterMap.mp h
  obtain ⟨w, -, hpair⟩ := Option.map_eq_some_iff.mp hentry
  have hkey : l = k := congrArg Prod.fst hpair
  exact hkey ▸ hl

/-- Every key has a value. -/
def IsTotal (m : OrderedMap α β) : Prop := ∀ k ∈ m.keys.toList, (m.get? k).isSome = true

theorem isTotal_empty : (∅ : OrderedMap α β).IsTotal := fun _ hk => absurd hk List.not_mem_nil

theorem IsTotal.foldl {step : OrderedMap α β → γ → OrderedMap α β}
    (hstep : ∀ m x, m.IsTotal → (step m x).IsTotal) {m : OrderedMap α β} (h : m.IsTotal)
    (xs : List γ) : (xs.foldl step m).IsTotal := by
  induction xs generalizing m with
  | nil => exact h
  | cons x xs ih => exact ih (hstep m x h)

/-- Where every key has a value, the entries have the keys in their order. -/
theorem map_fst_toList {m : OrderedMap α β} (h : m.IsTotal) :
    m.toList.map Prod.fst = m.keys.toList := by
  have hkey : ∀ k ∈ m.keys.toList, ((m.get? k).map (k, ·)).map Prod.fst = some k := by
    intro k hk
    obtain ⟨v, hv⟩ := Option.isSome_iff_exists.mp (h k hk)
    rw [hv]
    rfl
  rw [toList, List.map_filterMap, List.filterMap_congr hkey, List.filterMap_some]

variable [Std.TransOrd α] [Std.LawfulEqOrd α]

/-- Steps that add a key each leave the keys that they add. -/
theorem keys_foldl (step : OrderedMap α β → γ → OrderedMap α β) (key : γ → α)
    (hstep : ∀ m x, (step m x).keys = m.keys.insert (key x)) (m : OrderedMap α β) (xs : List γ) :
    (xs.foldl step m).keys = m.keys.insertAll (xs.map key) := by
  induction xs generalizing m with
  | nil => rfl
  | cons x xs ih =>
    have hrest := ih (step m x)
    rw [hstep] at hrest
    exact hrest

theorem IsTotal.update {m : OrderedMap α β} (h : m.IsTotal) (k : α) (f : Option β → β) :
    (m.update k f).IsTotal := by
  have : DecidableEq α := fun a b => decidable_of_iff _ (Std.LawfulEqOrd.compare_eq_iff_eq (a := a))
  intro l hl
  rw [get?_update]
  split
  · rfl
  · next hne =>
    rw [keys_update, OrderedSet.mem_insert] at hl
    exact h l (hl.resolve_right fun heq => hne heq.symm)

end OrderedMap

namespace Report

/-- The names that a report lists, in its order. -/
def names (r : Report) : List Text := r.classes.toList.map Prod.fst

theorem isCss_of_mem_stylesheetAdditions {registry : Registry} {name : Text}
    (h : name ∈ (stylesheetAdditions registry).map Prod.fst) : registry.isCss name = true := by
  obtain ⟨entry, hentry, hname⟩ := List.mem_map.mp h
  unfold stylesheetAdditions at hentry
  obtain ⟨file, -, hadded⟩ := List.mem_flatMap.mp hentry
  obtain ⟨added, hkept, hpair⟩ := List.mem_map.mp hadded
  have hadded : added = name := (congrArg Prod.fst hpair).trans hname
  exact hadded ▸ (List.mem_filter.mp hkept).2

/-- The names of a report, in the order in which they are added. -/
theorem keys_classesOf (registry : Registry) :
    (classesOf registry).keys = OrderedSet.insertAll
      (OrderedSet.ofList ((stylesheetAdditions registry).map Prod.fst)) registry.all.toList := by
  unfold classesOf
  rw [OrderedMap.keys_foldl _ id fun _ _ => rfl, List.map_id,
    OrderedMap.keys_foldl _ Prod.fst fun _ _ => rfl]
  rfl

/-- Every name of a report has an entry. -/
theorem isTotal_classesOf (registry : Registry) : (classesOf registry).IsTotal := by
  have hadd : ∀ (classes : ReportClasses) name origin file, classes.IsTotal →
      (ReportClasses.add classes name origin file).IsTotal := fun _ _ _ _ h => h.update _ _
  unfold classesOf
  exact (OrderedMap.isTotal_empty.foldl (fun _ _ => hadd _ _ _ _) _).foldl
    (fun _ _ => hadd _ _ _ _) _

theorem names_ofRegistry (time : Timestamp) (registry : Registry) :
    (ofRegistry time registry).names = (classesOf registry).keys.toList :=
  OrderedMap.map_fst_toList (isTotal_classesOf registry)

/-- A report lists no name that is not one of the registry's. -/
theorem mem_of_mem_classes {registry : Registry} {time : Timestamp} {name : Text}
    {entry : ReportEntry} (h : (name, entry) ∈ (ofRegistry time registry).classes.toList) :
    registry.isCss name = true ∨ name ∈ registry.all.toList := by
  have hkey : name ∈ (classesOf registry).keys.toList := OrderedMap.mem_keys_of_mem_toList h
  rw [keys_classesOf, OrderedSet.mem_insertAll, OrderedSet.mem_ofList] at hkey
  exact hkey.imp_left isCss_of_mem_stylesheetAdditions

end Report

end ClassLint
