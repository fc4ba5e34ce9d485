/-
  ClassLint.Proofs.Config.Merge

  Merging configurations.  A merged list is the list of the first configuration
  with the new items of the second behind it, each at its first occurrence, and
  that union is associative and idempotent as a list, whatever repetitions stand
  on either side.  A catalogue that is enabled overrides those before it, so that
  the last enabled one of a chain counts.  Together they make merging of whole
  configurations associative and idempotent.
-/

import ClassLint.Config
import ClassLint.Proofs.OrderedSet.Distinct
import Mathlib.Data.List.Basic

namespace ClassLint

/-! ## New items -/

/-- `added` are the items that `target` lacks, each once, in the order in which they
    first occur among `items`. -/
structure IsNew (target items added : List Text) : Prop where
  mem_iff : ∀ x, x ∈ added ↔ x ∈ items ∧ x ∉ target
  nodup : added.Nodup
  inOrder : added.Pairwise fun x y => items.idxOf x < items.idxOf y

/-- What is left of a list without repetitions stands in the order of first
    occurrences. -/
theorem pairwise_idxOf_eraseDups_filter (items : List Text) (p : Text → Bool) :
    (items.filter p).eraseDups.Pairwise fun x y => items.idxOf x < items.idxOf y := by
  induction items generalizing p with
  | nil => exact List.Pairwise.nil
  | cons item rest ih =>
    -- members other than `item` first occur one place further than in `rest`
    have hshift : ∀ q : Text → Bool, (∀ x, q x = true → x ≠ item) →
        (rest.filter q).eraseDups.Pairwise
          fun x y => (item :: rest).idxOf x < (item :: rest).idxOf y := by
      intro q hq
      refine (ih q).imp_of_mem fun {x y} hx hy hlt => ?_
      have hxne : item ≠ x := (hq x (List.mem_filter.mp (List.mem_eraseDups.mp hx)).2).symm
      have hyne : item ≠ y := (hq y (List.mem_filter.mp (List.mem_eraseDups.mp hy)).2).symm
      rw [List.idxOf_cons_ne _ hxne, List.idxOf_cons_ne _ hyne]
      exact Nat.succ_lt_succ hlt
    cases hitem : p item with
    | false =>
      rw [List.filter_cons_of_neg (by simp [hitem])]
      refine hshift p fun x hx heq => ?_
      rw [heq, hitem] at hx
      exact Bool.false_ne_true hx
    | true =>
      rw [List.filter_cons_of_pos hitem, List.eraseDups_cons, List.filter_filter]
      refine List.pairwise_cons.mpr ⟨fun y hy => ?_, hshift _ fun x hx heq => by simp [heq] at hx⟩
      have hyne : item ≠ y := by
        have hkept := (List.mem_filter.mp (List.mem_eraseDups.mp hy)).2
        intro heq
        simp [heq] at hkept
      rw [List.idxOf_cons_self, List.idxOf_cons_ne _ hyne]
      exact Nat.succ_pos _

theorem isNew_removeAll (target items : List Text) :
    IsNew target items (items.removeAll target).eraseDups where
  mem_iff x := by simp [List.mem_eraseDups, List.removeAll]
  nodup := nodup_eraseDups _
  inOrder := pairwise_idxOf_eraseDups_filter items _

/-! ## Merged lists -/

theorem appendNew_eq (target items : List Text) :
    appendNew target items = target ++ (items.removeAll target).eraseDups := by
  induction items generalizing target with
  | nil => simp [appendNew, List.removeAll]
  | cons item rest ih =>
    rw [appendNew, ih]
    by_cases hitem : item ∈ target
    · have hcontains : target.contains item = true := List.contains_iff_mem.mpr hitem
      have hold : (item :: rest).removeAll target = rest.removeAll target := by
        simp [List.removeAll, hitem]
      rw [if_pos hcontains, hold]
    · have hcontains : ¬ target.contains item = true := fun h => hitem (List.contains_iff_mem.mp h)
      have hnew : (item :: rest).removeAll target = item :: rest.removeAll target := by
        simp [List.removeAll, hitem]
      -- from here on `item` counts as one of the target's
      have hgrown : rest.removeAll (target ++ [item])
          = (rest.removeAll target).filter fun x => !x == item := by
        unfold List.removeAll
        rw [List.filter_filter]
        congr 1
        funext x
        by_cases hx : x = item <;> simp [hx, hitem]
      rw [if_neg hcontains, hgrown, hnew, List.eraseDups_cons, List.append_assoc]
      rfl

/-- Taking items away before repetitions or after. -/
theorem removeAll_eraseDups (xs ys : List Text) :
    xs.eraseDups.removeAll ys = (xs.removeAll ys).eraseDups :=
  filter_eraseDups _ xs

theorem appendNew_assoc (xs ys zs : List Text) :
    appendNew (appendNew xs ys) zs = appendNew xs (appendNew ys zs) := by
  -- what `zs` adds lacks the items of both lists before it, on either side
  have hadded : ((zs.removeAll ys).removeAll xs).removeAll (ys.removeAll xs)
      = zs.removeAll (xs ++ (ys.removeAll xs).eraseDups) := by
    unfold List.removeAll
    rw [List.filter_filter, List.filter_filter]
    congr 1
    funext z
    by_cases hxs : z ∈ xs <;> by_cases hys : z ∈ ys <;> simp [List.mem_eraseDups, hxs, hys]
  have hparts : (ys ++ (zs.removeAll ys).eraseDups).removeAll xs
      = ys.removeAll xs ++ ((zs.removeAll ys).removeAll xs).eraseDups := by
    have happend : (ys ++ (zs.removeAll ys).eraseDups).removeAll xs
        = ys.removeAll xs ++ (zs.removeAll ys).eraseDups.removeAll xs := List.filter_append _ _
    rw [happend, removeAll_eraseDups]
  calc appendNew (appendNew xs ys) zs
      = xs ++ (ys.removeAll xs).eraseDups
          ++ (zs.removeAll (xs ++ (ys.removeAll xs).eraseDups)).eraseDups := by
        rw [appendNew_eq, appendNew_eq]
    _ = xs ++ ((ys.removeAll xs).eraseDups
          ++ (((zs.removeAll ys).removeAll xs).eraseDups.removeAll (ys.removeAll xs)).eraseDups) := by
        rw [removeAll_eraseDups, hadded, eraseDups_of_nodup (nodup_eraseDups _), List.append_assoc]
    _ = xs ++ ((ys ++ (zs.removeAll ys).eraseDups).removeAll xs).eraseDups := by
        rw [hparts, List.eraseDups_append]
    _ = appendNew xs (appendNew ys zs) := by
        rw [appendNew_eq ys, appendNew_eq]

/-- A list has nothing new for itself. -/
theorem appendNew_self (xs : List Text) : appendNew xs xs = xs := by
  have hnone : xs.removeAll xs = [] :=
    List.filter_eq_nil_iff.mpr fun x hx => by simp [hx]
  rw [appendNew_eq, hnone, List.eraseDups_nil, List.append_nil]

/-! ## Merged configurations -/

namespace CatalogueChoice

/-- Only the choice `false` disables the catalogue. -/
theorem isSome_settings?_iff (choice : CatalogueChoice) :
    choice.settings?.isSome = true ↔ choice ≠ .enabled false := by
  cases choice with
  | enabled on => cases on <;> simp [settings?]
  | settings s => simp [settings?]

end CatalogueChoice

namespace Config

theorem catalogue_merge (base additions : Config) :
    (base.merge additions).catalogue
      = if additions.catalogue = .enabled false then base.catalogue else additions.catalogue := by
  have hiff := additions.catalogue.isSome_settings?_iff
  by_cases hoff : additions.catalogue = .enabled false
  · have hnone : ¬ additions.catalogue.settings?.isSome = true := fun h => hiff.mp h hoff
    rw [if_pos hoff, merge, if_neg hnone]
  · rw [if_neg hoff, merge, if_pos (hiff.mpr hoff)]

/-- The list fields of a configuration. -/
def listFields : List (Config → List Text) := [stylesheets, allowlist, blocklist, ignore]

/-- Every list field is merged in the same way. -/
theorem list_merge {field : Config → List Text} (h : field ∈ listFields) (base additions : Config) :
    field (base.merge additions) = appendNew (field base) (field additions) := by
  simp only [listFields, List.mem_cons, List.not_mem_nil, or_false] at h
  rcases h with rfl | rfl | rfl | rfl <;> rfl

/-- Two configurations are the same if their lists, catalogues and directories are. -/
theorem eq_of_fields {a b : Config} (hlists : ∀ field ∈ listFields, field a = field b)
    (hcatalogue : a.catalogue = b.catalogue) (hcwd : a.cwd = b.cwd) : a = b := by
  simp only [listFields, List.forall_mem_cons, List.not_mem_nil, false_implies, implies_true,
    and_true] at hlists
  obtain ⟨hstylesheets, hallowlist, hblocklist, hignore⟩ := hlists
  cases a
  cases b
  simp only at hstylesheets hallowlist hblocklist hignore hcatalogue hcwd
  subst hstylesheets hallowlist hblocklist hignore hcatalogue hcwd
  rfl

theorem merge_assoc (a b c : Config) : (a.merge b).merge c = a.merge (b.merge c) := by
  refine eq_of_fields (fun field hfield => ?_) ?_ rfl
  · rw [list_merge hfield, list_merge hfield, list_merge hfield, list_merge hfield,
      appendNew_assoc]
  · rw [catalogue_merge, catalogue_merge, catalogue_merge, catalogue_merge]
    by_cases hoff : c.catalogue = .enabled false
    · rw [if_pos hoff, if_pos hoff]
    · rw [if_neg hoff, if_neg hoff, if_neg hoff]

theorem merge_self (a : Config) : a.merge a = a := by
  refine eq_of_fields (fun field hfield => ?_) ?_ rfl
  · rw [list_merge hfield, appendNew_self]
  · rw [catalogue_merge, ite_self]

/-- **Merging is an associative, idempotent union.**  A chain of additions may be merged
    in either order of brackets, and merging a configuration into itself changes
    nothing.  Every list of the result is the first configuration's with the new items
    of the second behind it; the catalogue is the second one's if that is enabled, and
    the directory is the first one's. -/
theorem merge_isUnion (a b c : Config) :
    (a.merge b).merge c = a.merge (b.merge c)
    ∧ a.merge a = a
    ∧ (∀ field ∈ listFields, ∃ added, IsNew (field a) (field b) added
        ∧ field (a.merge b) = field a ++ added)
    ∧ (a.merge b).catalogue
        = (if b.catalogue = .enabled false then a.catalogue else b.catalogue)
    ∧ (a.merge b).cwd = a.cwd := by
  refine ⟨merge_assoc a b c, merge_self a, fun field hfield => ?_, catalogue_merge a b, rfl⟩
  refine ⟨_, isNew_removeAll (field a) (field b), ?_⟩
  rw [list_merge hfield, appendNew_eq]

/-- Repetitions within the additions and items of the first list are dropped. -/
example : appendNew ["a".toList, "a".toList] ["b".toList, "a".toList, "b".toList, "c".toList]
    = ["a".toList, "a".toList, "b".toList, "c".toList] := by decide

end Config

end ClassLint
