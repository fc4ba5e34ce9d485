/-
  ClassLint.Proofs.OrderedSet.Distinct

  The order of a set.  Adding a list puts those of its members that are new at
  the end, each at its first occurrence, so that the set of a list is the list
  without repetitions.  Members that are dropped or repeated on the way make no
  difference to the first occurrences of the others.
-/

import ClassLint.OrderedSet

namespace ClassLint

/-! ## First occurrences -/

section FirstOccurrences

variable {α : Type} [BEq α] [LawfulBEq α]

/-- Repetitions may be taken out before members are dropped as well as after. -/
theorem eraseDups_filter_eraseDups (p : α → Bool) :
    ∀ xs : List α, (xs.eraseDups.filter p).eraseDups = (xs.filter p).eraseDups
  | [] => rfl
  | x :: xs => by
    -- the list without the repetitions of its first member is shorter
    have hlt : (xs.filter fun y => !y == x).length < xs.length + 1 :=
      Nat.lt_succ_of_le (List.length_filter_le _ _)
    rw [List.eraseDups_cons]
    cases hx : p x with
    | true =>
      rw [List.filter_cons_of_pos hx, List.filter_cons_of_pos hx, List.eraseDups_cons,
        List.eraseDups_cons, List.filter_filter, eraseDups_filter_eraseDups, List.filter_filter,
        List.filter_filter]
      congr 3
      funext y
      cases !y == x <;> simp
    | false =>
      have hdrop : ¬ p x = true := by simp [hx]
      rw [List.filter_cons_of_neg hdrop, List.filter_cons_of_neg hdrop,
        eraseDups_filter_eraseDups, List.filter_filter]
      congr 2
      funext y
      by_cases hy : y = x <;> simp [hy, hx]
termination_by xs => xs.length

theorem eraseDups_of_nodup : ∀ {xs : List α}, xs.Nodup → xs.eraseDups = xs
  | [], _ => rfl
  | x :: xs, h => by
    obtain ⟨hx, hxs⟩ := List.nodup_cons.mp h
    have hkept : xs.filter (fun y => !y == x) = xs :=
      List.filter_eq_self.mpr fun y hy => by simpa using fun heq : y = x => hx (heq ▸ hy)
    rw [List.eraseDups_cons, hkept, eraseDups_of_nodup hxs]

theorem nodup_eraseDups : ∀ xs : List α, xs.eraseDups.Nodup
  | [] => List.nodup_nil
  | x :: xs => by
    have hlt : (xs.filter fun y => !y == x).length < xs.length + 1 :=
      Nat.lt_succ_of_le (List.length_filter_le _ _)
    rw [List.eraseDups_cons, List.nodup_cons]
    exact ⟨by simp [List.mem_eraseDups], nodup_eraseDups _⟩
termination_by xs => xs.length

/-- Members may be dropped before repetitions are taken out as well as after. -/
theorem filter_eraseDups (p : α → Bool) (xs : List α) :
    xs.eraseDups.filter p = (xs.filter p).eraseDups := by
  rw [← eraseDups_filter_eraseDups, eraseDups_of_nodup ((nodup_eraseDups xs).filter p)]

/-- Members that are there already are nothing new. -/
theorem eraseDups_append_append_of_subset {xs ys : List α} (h : ys ⊆ xs) (zs : List α) :
    (xs ++ (ys ++ zs)).eraseDups = (xs ++ zs).eraseDups := by
  have hold : ys.filter (fun y => !xs.elem y) = [] :=
    List.filter_eq_nil_iff.mpr fun y hy => by simpa using h hy
  rw [List.eraseDups_append, List.eraseDups_append]
  unfold List.removeAll
  rw [List.filter_append, hold, List.nil_append]

/-- Repetitions may be taken out of both parts of a list first. -/
theorem eraseDups_eraseDups_append (xs ys : List α) :
    (xs.eraseDups ++ ys.eraseDups).eraseDups = (xs ++ ys).eraseDups := by
  have hmem : ∀ y, List.elem y xs.eraseDups = List.elem y xs := by
    intro y
    rw [Bool.eq_iff_iff, List.elem_iff, List.elem_iff, List.mem_eraseDups]
  rw [List.eraseDups_append, List.eraseDups_append, eraseDups_of_nodup (nodup_eraseDups xs)]
  unfold List.removeAll
  simp only [hmem]
  rw [eraseDups_filter_eraseDups]

end FirstOccurrences

namespace OrderedSet

variable {α : Type} [Ord α] [Std.TransOrd α] [Std.LawfulEqOrd α] [BEq α] [LawfulBEq α]

/-- What is new in the list follows what is there. -/
theorem toList_insertAll (s : OrderedSet α) (xs : List α) :
    (s.insertAll xs).toList = s.toList ++ (xs.removeAll s.toList).eraseDups := by
  have : DecidableEq α := instDecidableEqOfLawfulBEq
  induction xs generalizing s with
  | nil => simp [insertAll, List.removeAll]
  | cons x xs ih =>
    have hstep : s.insertAll (x :: xs) = (s.insert x).insertAll xs := rfl
    rw [hstep, ih, toList_insert]
    by_cases hx : x ∈ s.toList
    · rw [if_pos hx]
      simp [List.removeAll, hx]
    · have hrest : xs.removeAll (s.toList ++ [x])
          = (xs.removeAll s.toList).filter fun y => !y == x := by
        unfold List.removeAll
        rw [List.filter_filter]
        congr 1
        funext y
        by_cases hy : y = x <;> simp [hy, hx]
      have hfirst : (x :: xs).removeAll s.toList = x :: xs.removeAll s.toList := by
        simp [List.removeAll, hx]
      rw [if_neg hx, hrest, hfirst, List.eraseDups_cons, List.append_assoc]
      rfl

omit [Std.TransOrd α] [Std.LawfulEqOrd α] [BEq α] [LawfulBEq α] in
theorem toList_of_isEmpty {s : OrderedSet α} (h : s.isEmpty = true) : s.toList = [] := by
  rw [toList, Array.toList_eq_nil_iff]
  exact Array.isEmpty_iff.mp h

/-- The set of a list is the list without repetitions. -/
theorem toList_ofList (xs : List α) : (ofList xs).toList = xs.eraseDups := by
  have hnew : xs.removeAll (empty : OrderedSet α).toList = xs :=
    List.filter_eq_self.mpr fun _ _ => rfl
  rw [ofList, toList_insertAll, hnew]
  rfl

end OrderedSet

end ClassLint
