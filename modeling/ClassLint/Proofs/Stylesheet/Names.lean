/-
  ClassLint.Proofs.Stylesheet.Names

  Which characters the class names of a stylesheet can hold.  A name is written
  inside one selector, and a selector is put together from preludes.  So a
  character that reaches no prelude is in no name.  The braces, the semicolon and
  `&` never get into a selector at all, whether a backslash stands before them or
  not.
-/

import ClassLint.Proofs.Stylesheet.Nesting
import ClassLint.Proofs.Stylesheet.Steps

namespace ClassLint

/-! ## Texts -/

namespace Text

theorem trim_sublist (t : Text) : (trim t).Sublist t := by
  have hback : ((t.dropWhile isBlank).reverse.dropWhile isBlank).reverse.Sublist
      (t.dropWhile isBlank).reverse.reverse := (List.dropWhile_sublist isBlank).reverse
  rw [List.reverse_reverse] at hback
  exact hback.trans (List.dropWhile_sublist isBlank)

theorem not_mem_substitute {c d : Char} {value t : Text} (hvalue : d ∉ value)
    (ht : d ∈ t → d = c) : d ∉ substitute c value t := by
  intro hmem
  obtain ⟨x, hx, hd⟩ := List.mem_flatMap.mp hmem
  split at hd
  · exact hvalue hd
  · next hne =>
    rw [List.mem_singleton.mp hd] at ht
    exact hne (by rw [ht hx]; exact BEq.rfl)

end Text

/-! ## Selectors -/

namespace Selector

theorem splitTopLevel_ne_nil (depth : Int) (t : Text) : splitTopLevel depth t ≠ [] := by
  cases t with
  | nil => exact List.cons_ne_nil _ _
  | cons c rest =>
    unfold splitTopLevel
    split
    · exact List.cons_ne_nil _ _
    · cases splitTopLevel (depthAfter depth c) rest <;> exact List.cons_ne_nil _ _

theorem sublist_of_mem_splitTopLevel {depth : Int} {t piece : Text}
    (h : piece ∈ splitTopLevel depth t) : piece.Sublist t := by
  induction t generalizing depth piece with
  | nil =>
    rw [splitTopLevel, List.mem_singleton] at h
    exact h ▸ List.Sublist.refl []
  | cons c rest ih =>
    unfold splitTopLevel at h
    split at h
    · rcases List.mem_cons.mp h with rfl | h
      · exact List.nil_sublist _
      · exact (ih h).cons c
    · -- the character is put in front of the first piece, the others stay
      obtain ⟨first, others, hpieces⟩ :=
        List.exists_cons_of_ne_nil (splitTopLevel_ne_nil (depthAfter depth c) rest)
      rw [hpieces, Text.extendFirst] at h
      rcases List.mem_cons.mp h with rfl | h
      · exact (ih (hpieces ▸ List.mem_cons_self)).cons_cons c
      · exact (ih (hpieces ▸ List.mem_cons_of_mem first h)).cons c

theorem sublist_of_mem_parts {prelude part : Text} (h : part ∈ parts prelude) :
    part.Sublist prelude := by
  obtain ⟨piece, hpiece, rfl⟩ := List.mem_map.mp (List.mem_filter.mp h).1
  exact (Text.trim_sublist piece).trans (sublist_of_mem_splitTopLevel hpiece)

/-- A character of a resolved selector other than the blank is in the prelude, and
    is not `&`, or it is in one of the enclosing selectors. -/
theorem not_mem_of_mem_flatten {d : Char} {prelude : Text} {parents : List Text}
    (hblank : d ≠ ' ') (hprelude : d ∈ prelude → d = '&') (hparents : ∀ p ∈ parents, d ∉ p)
    {selector : Text} (h : selector ∈ flatten prelude parents) : d ∉ selector := by
  have hpart : ∀ part ∈ parts prelude, d ∈ part → d = '&' :=
    fun part hmem hd => hprelude ((sublist_of_mem_parts hmem).subset hd)
  unfold flatten at h
  split at h
  · obtain ⟨part, hmem, rfl⟩ := List.mem_map.mp h
    exact Text.not_mem_substitute List.not_mem_nil (hpart part hmem)
  · obtain ⟨part, hmem, hparent⟩ := List.mem_flatMap.mp h
    obtain ⟨parent, hp, rfl⟩ := List.mem_map.mp hparent
    unfold nest
    split
    · exact Text.not_mem_substitute (hparents parent hp) (hpart part hmem)
    · next hamp =>
      intro hd
      rcases List.mem_append.mp hd with hd | hd
      · exact hparents parent hp hd
      · rcases List.mem_cons.mp hd with hd | hd
        · exact hblank hd
        · rw [hpart part hmem hd] at hd
          exact hamp (List.contains_iff_mem.mpr hd)

/-! ## Names in a selector -/

theorem continued_sublist (t : Text) : (continued t).1.Sublist t := by
  fun_induction continued t with
  | case1 => exact List.nil_sublist _
  | case2 c rest hc name length heq ih => exact ((heq ▸ ih).cons_cons c).cons '\\'
  | case3 c rest hescape hinside name length heq ih => exact (heq ▸ ih).cons_cons c
  | case4 => exact List.nil_sublist _
  | case5 => exact List.nil_sublist _

theorem started?_sublist {t name : Text} {length : Nat} (h : started? t = some (name, length)) :
    name.Sublist t := by
  unfold started? at h
  split at h
  · next c rest =>
    split at h
    · exact absurd h (by simp)
    · obtain ⟨rfl, -⟩ := Prod.mk.inj (Option.some.inj h)
      exact ((continued_sublist rest).cons_cons c).cons '\\'
  · next c rest _ =>
    split at h
    · obtain ⟨rfl, -⟩ := Prod.mk.inj (Option.some.inj h)
      exact (continued_sublist rest).cons_cons c
    · exact absurd h (by simp)
  · exact absurd h (by simp)

theorem name?_sublist {t name : Text} {length : Nat} (h : name? t = some (name, length)) :
    name.Sublist t := by
  unfold name? at h
  split at h
  · next rest =>
    obtain ⟨⟨inner, n⟩, hinner, heq⟩ := Option.map_eq_some_iff.mp h
    obtain ⟨rfl, -⟩ := Prod.mk.inj heq
    exact (started?_sublist hinner).cons_cons '-'
  · exact started?_sublist h

/-- A class name is written inside its selector, perhaps with backslashes between. -/
theorem sublist_of_mem_classesFrom {skip : Nat} {t name : Text}
    (h : name ∈ classesFrom skip t) : name.Sublist t := by
  induction t generalizing skip with
  | nil => exact absurd h (by simp [classesFrom])
  | cons c rest ih =>
    unfold classesFrom at h
    split at h
    · exact (ih h).cons c
    · split at h
      · split at h
        · next inner length hname =>
          rcases List.mem_cons.mp h with rfl | h
          · exact (name?_sublist hname).cons c
          · exact (ih h).cons c
        · exact (ih h).cons c
      · exact (ih h).cons c

end Selector

/-! ## Names in a stylesheet -/

namespace Stylesheet

/-- A character is in no name that was found and in no selector in force. -/
structure ScanState.Lacks (d : Char) (s : ScanState) : Prop where
  found : ∀ name ∈ s.found.classes.toList, d ∉ name
  selectors : ∀ frame ∈ s.stack, ∀ selector ∈ frame.selectors, d ∉ selector

namespace ScanState

variable {d : Char} {s : ScanState}

theorem lacks_start (d : Char) : start.Lacks d where
  found _ h := absurd h List.not_mem_nil
  selectors _ h := absurd h List.not_mem_nil

theorem Lacks.selectors_inForce (h : s.Lacks d) : ∀ p ∈ s.selectors, d ∉ p := by
  unfold ScanState.selectors
  split
  · exact fun p hp => absurd hp List.not_mem_nil
  · next frame outer hstack => exact h.selectors frame (hstack ▸ List.mem_cons_self)

theorem Lacks.openBlock (h : s.Lacks d) (hblank : d ≠ ' ') {prelude : Text}
    (hprelude : d ∈ prelude → d = '&') : (s.openBlock prelude).Lacks d := by
  have hflat : ∀ p ∈ Selector.flatten prelude s.selectors, d ∉ p :=
    fun p => Selector.not_mem_of_mem_flatten hblank hprelude h.selectors_inForce
  constructor
  · intro name hname
    rw [ScanState.openBlock, Classes.add, OrderedSet.mem_insertAll] at hname
    rcases hname with hname | hname
    · exact h.found name hname
    · unfold defined at hname
      split at hname
      · exact absurd hname List.not_mem_nil
      · obtain ⟨selector, hselector, hname⟩ := List.mem_flatMap.mp hname
        exact fun hd => hflat selector hselector
          ((Selector.sublist_of_mem_classesFrom hname).subset hd)
  · intro frame hframe
    rw [ScanState.openBlock] at hframe
    rcases List.mem_cons.mp hframe with rfl | hframe
    · unfold ScanState.frame
      split
      · exact h.selectors_inForce
      · exact hflat
    · exact h.selectors frame hframe

/-- Only an opening brace can bring a character into names and selectors, and only
    one that is pending. -/
theorem Lacks.step (h : s.Lacks d) (hblank : d ≠ ' ') {c : Char} {next : ScanState}
    (hpending : c = '{' → d ∈ s.pending → d = '&') (hstep : s.step c = .ok next) :
    next.Lacks d := by
  rcases step_eq_ok hstep with ⟨hopen, rfl⟩ | ⟨frame, outer, hstack, rfl⟩ | rfl | ⟨-, rfl⟩
  · refine h.openBlock hblank fun hd => hpending hopen ?_
    exact List.mem_reverse.mp ((Text.trim_sublist _).subset hd)
  · exact ⟨h.found, fun inner hinner =>
      h.selectors inner (hstack ▸ List.mem_cons_of_mem frame hinner)⟩
  · exact ⟨h.found, h.selectors⟩
  · exact ⟨h.found, h.selectors⟩

/-- Behind the last opening brace nothing is defined. -/
theorem Lacks.run_of_not_mem (h : s.Lacks d) (hblank : d ≠ ' ') {t : Text} {final : ScanState}
    (hopen : '{' ∉ t) (hrun : s.run t = .ok final) : final.Lacks d := by
  refine run_induction (fun s c next hc hlacks => ?_) h hrun
  exact hlacks.step hblank fun heq => absurd (heq ▸ hc) hopen

/-- The pending text holds a character only if it has been read and is no
    separator. -/
theorem mem_pending_step {c : Char} {next : ScanState} (hstep : s.step c = .ok next)
    (hd : d ∈ next.pending) : d ∈ s.pending ∨ (d = c ∧ isSeparator d = false) := by
  rcases step_eq_ok hstep with ⟨-, rfl⟩ | ⟨frame, outer, -, rfl⟩ | rfl
    | ⟨⟨hopen, hclose, hsemicolon⟩, rfl⟩
  · exact absurd hd List.not_mem_nil
  · exact absurd hd List.not_mem_nil
  · exact absurd hd List.not_mem_nil
  · rcases List.mem_cons.mp hd with rfl | hd
    · exact Or.inr ⟨rfl, by simp [isSeparator, hopen, hclose, hsemicolon]⟩
    · exact Or.inl hd

/-- A character that the text does not hold, or that is a separator or `&`, gets
    into no name. -/
theorem Lacks.run (h : s.Lacks d) (hblank : d ≠ ' ') {t : Text} {final : ScanState}
    (hpending : d ∈ s.pending → d = '&') (ht : d ∈ t → isSeparator d = true ∨ d = '&')
    (hrun : s.run t = .ok final) : final.Lacks d := by
  have hstep : ∀ (s : ScanState) c (next : ScanState), c ∈ t →
      (s.Lacks d ∧ (d ∈ s.pending → d = '&')) → s.step c = .ok next →
        next.Lacks d ∧ (d ∈ next.pending → d = '&') := by
    rintro s c next hc ⟨hlacks, hamp⟩ hstep
    refine ⟨hlacks.step hblank (fun _ => hamp) hstep, fun hd => ?_⟩
    rcases mem_pending_step hstep hd with hd | ⟨rfl, hseparator⟩
    · exact hamp hd
    · exact (ht hc).resolve_left (by simp [hseparator])
  exact (run_induction hstep ⟨h, hpending⟩ hrun).1

theorem run_append_eq_ok {a b : Text} {final : ScanState} (h : s.run (a ++ b) = .ok final) :
    ∃ middle, s.run a = .ok middle ∧ middle.run b = .ok final := by
  induction a generalizing s with
  | nil => exact ⟨s, rfl, h⟩
  | cons c rest ih =>
    rw [List.cons_append, ScanState.run] at h
    rw [ScanState.run]
    split at h
    · exact ih h
    · exact absurd h (by simp)

end ScanState

/-- No class name of a stylesheet holds a brace, a semicolon or `&`. -/
theorem not_mem_of_isSeparator {d : Char} (hd : isSeparator d = true ∨ d = '&')
    {extension? : Option Text} {source : Text} {found : Classes}
    (h : scan extension? source = .ok found) {name : Text} (hname : name ∈ found.classes.toList) :
    d ∉ name := by
  obtain ⟨s, hrun, rfl⟩ := scanCleaned_eq_ok h
  have hblank : d ≠ ' ' := by
    rintro rfl
    exact absurd hd (by decide)
  have hlacks : s.Lacks d := (ScanState.lacks_start d).run hblank
    (fun hpending => absurd hpending List.not_mem_nil) (fun _ => hd) hrun
  exact hlacks.found name hname

end Stylesheet

end ClassLint
