/-
  ClassLint.Proofs.Stylesheet.Braces

  Which stylesheets are rejected: those whose braces do not balance once comments
  and quoted strings are gone.  The number of open blocks is that of the opening
  braces read so far less that of the closing ones, whatever else the text holds.
  So a scan stops at the first brace that closes nothing, and otherwise the
  blocks that are open at the end are the braces in excess.
-/

import Mathlib.Data.List.Basic
import ClassLint.Proofs.Stylesheet.Steps
import ClassLint.Proofs.Text.Nesting

namespace ClassLint.Stylesheet

namespace ScanState

/-! ## Open blocks -/

/-- A character is read unless it closes a block that is not there; it changes the
    number of open blocks as braces do. -/
theorem step_depth (s : ScanState) (c : Char) :
    (∃ next, s.step c = .ok next
        ∧ next.stack.length + [c].count '}' = s.stack.length + [c].count '{')
      ∨ (c = '}' ∧ s.stack = [] ∧ s.step c = .error .unexpectedClose) := by
  rcases step_cases s c with ⟨rfl, hstep⟩ | hrejected | ⟨rfl, frame, outer, hstack, hstep⟩
    | ⟨rfl, hstep⟩ | ⟨⟨hopen, hclose, -⟩, hstep⟩
  · exact Or.inl ⟨_, hstep, rfl⟩
  · exact Or.inr hrejected
  · refine Or.inl ⟨_, hstep, ?_⟩
    rw [hstack]
    rfl
  · exact Or.inl ⟨_, hstep, rfl⟩
  · refine Or.inl ⟨_, hstep, ?_⟩
    simp [hopen, hclose]

/-- A text is read to its end if it closes only what is open, and then the number of
    open blocks has changed by its braces. -/
theorem run_cases (s : ScanState) (t : Text) :
    (Text.NeverOvercloses '{' '}' s.stack.length t
        ∧ ∃ final, s.run t = .ok final
          ∧ final.stack.length + t.count '}' = s.stack.length + t.count '{')
      ∨ (¬ Text.NeverOvercloses '{' '}' s.stack.length t ∧ s.run t = .error .unexpectedClose) := by
  -- induction on the text, with as many blocks open as the characters before have left
  induction t generalizing s with
  | nil => exact Or.inl ⟨Text.neverOvercloses_nil, s, rfl, rfl⟩
  | cons c rest ih =>
    rcases step_depth s c with ⟨next, hstep, hdepth⟩ | ⟨rfl, hstack, hstep⟩
    · have hrun : s.run (c :: rest) = next.run rest := by rw [run, hstep]
      rw [hrun, Text.neverOvercloses_cons hdepth]
      refine (ih next).imp_left ?_
      rintro ⟨hcloses, final, hfinal, hcount⟩
      refine ⟨hcloses, final, hfinal, ?_⟩
      rw [Text.count_cons_add c '}', Text.count_cons_add c '{']
      omega
    · -- the first character is a beginning that closes too much, whatever follows
      refine Or.inr ⟨?_, by rw [run, hstep]⟩
      rw [hstack]
      exact Text.not_neverOvercloses_close (by decide) rest

/-! ## Layers -/

/-- Names found in a layer are among all names found. -/
def LayersFound (s : ScanState) : Prop :=
  ∀ name ∈ s.found.layered.toList, name ∈ s.found.classes.toList

theorem LayersFound.openBlock {s : ScanState} (h : s.LayersFound) (prelude : Text) :
    (s.openBlock prelude).LayersFound := by
  intro name hname
  have hclasses : (s.openBlock prelude).found.classes
      = s.found.classes.insertAll (s.defined prelude) := rfl
  rw [hclasses, OrderedSet.mem_insertAll]
  unfold ScanState.openBlock Classes.add at hname
  cases hlayered : s.layered with
  | true =>
    simp only [hlayered, if_true, OrderedSet.mem_insertAll] at hname
    exact hname.imp_left (h name)
  | false =>
    simp only [hlayered] at hname
    exact Or.inl (h name hname)

theorem LayersFound.step {s next : ScanState} {c : Char} (h : s.LayersFound)
    (hstep : s.step c = .ok next) : next.LayersFound := by
  rcases step_eq_ok hstep with ⟨-, rfl⟩ | ⟨frame, outer, -, rfl⟩ | rfl | ⟨-, rfl⟩
  · exact h.openBlock _
  · exact h
  · exact h
  · exact h

end ScanState

/-! ## Whole stylesheets -/

/-- How a scan of cleaned text ends. -/
theorem scanCleaned_cases (cleaned : Text) :
    (Text.NeverOvercloses '{' '}' 0 cleaned ∧ cleaned.count '{' = cleaned.count '}'
        ∧ ∃ found, scanCleaned cleaned = .ok found)
      ∨ (Text.NeverOvercloses '{' '}' 0 cleaned ∧ cleaned.count '{' ≠ cleaned.count '}'
        ∧ scanCleaned cleaned = .error (.unclosed (cleaned.count '{' - cleaned.count '}')))
      ∨ (¬ Text.NeverOvercloses '{' '}' 0 cleaned
        ∧ scanCleaned cleaned = .error .unexpectedClose) := by
  rcases ScanState.run_cases .start cleaned with ⟨hcloses, final, hrun, hcount⟩ | ⟨hcloses, hrun⟩
  · have hexcess : final.stack.length + cleaned.count '}' = cleaned.count '{' := by
      rw [hcount]
      exact Nat.zero_add _
    cases hstack : final.stack with
    | nil =>
      rw [hstack, List.length_nil, Nat.zero_add] at hexcess
      exact Or.inl ⟨hcloses, hexcess.symm, final.found, by simp [scanCleaned, hrun, hstack]⟩
    | cons frame outer =>
      -- the blocks that stay open are the opening braces in excess
      rw [hstack, List.length_cons] at hexcess
      have hblocks : cleaned.count '{' - cleaned.count '}' = outer.length + 1 := by omega
      refine Or.inr (Or.inl ⟨hcloses, by omega, ?_⟩)
      rw [hblocks]
      simp [scanCleaned, hrun, hstack]
  · exact Or.inr (Or.inr ⟨hcloses, by simp [scanCleaned, hrun]⟩)

theorem exists_scanCleaned_eq_ok_iff {cleaned : Text} :
    (∃ found, scanCleaned cleaned = .ok found) ↔
      Text.NeverOvercloses '{' '}' 0 cleaned ∧ cleaned.count '{' = cleaned.count '}' := by
  rcases scanCleaned_cases cleaned with ⟨hnever, hcount, hscan⟩ | ⟨-, hcount, hscan⟩
    | ⟨hnever, hscan⟩
  · exact iff_of_true hscan ⟨hnever, hcount⟩
  · rw [hscan]
    exact iff_of_false nofun fun h => hcount h.2
  · rw [hscan]
    exact iff_of_false nofun fun h => hnever h.1

theorem scanCleaned_eq_unexpectedClose_iff {cleaned : Text} :
    scanCleaned cleaned = .error .unexpectedClose ↔ ¬ Text.NeverOvercloses '{' '}' 0 cleaned := by
  rcases scanCleaned_cases cleaned with ⟨hnever, -, found, hscan⟩ | ⟨hnever, -, hscan⟩
    | ⟨hnever, hscan⟩
  · rw [hscan]
    exact iff_of_false nofun (not_not_intro hnever)
  · rw [hscan]
    exact iff_of_false nofun (not_not_intro hnever)
  · exact iff_of_true hscan hnever

theorem scanCleaned_eq_unclosed {cleaned : Text} (hnever : Text.NeverOvercloses '{' '}' 0 cleaned)
    (hcount : cleaned.count '{' ≠ cleaned.count '}') :
    scanCleaned cleaned = .error (.unclosed (cleaned.count '{' - cleaned.count '}')) := by
  rcases scanCleaned_cases cleaned with ⟨-, heq, -⟩ | ⟨-, -, hscan⟩ | ⟨hover, -⟩
  · exact absurd heq hcount
  · exact hscan
  · exact absurd hnever hover

/-- Names found in a layer are among all names of the stylesheet. -/
theorem layered_subset_classes {extension? : Option Text} {source : Text} {found : Classes}
    (h : scan extension? source = .ok found) :
    ∀ name ∈ found.layered.toList, name ∈ found.classes.toList := by
  obtain ⟨final, hrun, rfl⟩ := scanCleaned_eq_ok h
  have hstart : ScanState.start.LayersFound := fun name hname => absurd hname List.not_mem_nil
  exact ScanState.run_induction (fun _ _ _ _ => ScanState.LayersFound.step) hstart hrun

/-! ## Messages -/

/-- The two messages end differently. -/
theorem message_unclosed_ne (blocks : Nat) :
    (Fault.unclosed blocks).message ≠ Fault.unexpectedClose.message := by
  have hending : ')' ∈ " unclosed block(s)".toList.getLast? := by decide
  intro (h : Text.ofNat blocks ++ " unclosed block(s)".toList = "unexpected '\x7d'".toList)
  have hblocks : ')' ∈ (Text.ofNat blocks ++ " unclosed block(s)".toList).getLast? :=
    List.mem_getLast?_append_of_mem_getLast? hending
  rw [h] at hblocks
  exact absurd hblocks (by decide)

variable {α : Type} {result : Except Fault α}

theorem mapError_message_eq_ok_iff {a : α} :
    result.mapError Fault.message = .ok a ↔ result = .ok a := by
  cases result with
  | ok => simp [Except.mapError]
  | error => exact iff_of_false nofun nofun

theorem mapError_message_eq_unexpectedClose_iff :
    result.mapError Fault.message = .error Fault.unexpectedClose.message ↔
      result = .error .unexpectedClose := by
  cases result with
  | ok => exact iff_of_false nofun nofun
  | error fault =>
    cases fault with
    | unexpectedClose => exact iff_of_true rfl rfl
    | unclosed blocks =>
      exact iff_of_false (fun h => message_unclosed_ne blocks (Except.error.inj h)) nofun

/-- **A stylesheet is rejected exactly if its braces do not balance.**  Let comments
    and quoted strings be gone.  The scan succeeds if and only if no beginning has
    more closing braces than opening ones and the whole has as many of each.  It
    fails with an unexpected brace if and only if some beginning has more closing
    ones, and otherwise with as many unclosed blocks as there are opening braces in
    excess.  Where it succeeds, the names found in layers are among all names. -/
theorem scan_braces (extension? : Option Text) (source : Text) :
    let cleaned := clean (extension?.any lineCommentExtensions.contains) source
    let answer := (scan extension? source).mapError Fault.message
    ((∃ found, answer = .ok found) ↔
      (∀ p, p <+: cleaned → p.count '}' ≤ p.count '{')
        ∧ cleaned.count '{' = cleaned.count '}')
    ∧ (answer = .error "unexpected '\x7d'".toList ↔
      ∃ p, p <+: cleaned ∧ p.count '{' < p.count '}')
    ∧ ((∀ p, p <+: cleaned → p.count '}' ≤ p.count '{') →
      cleaned.count '{' ≠ cleaned.count '}' →
      answer = .error (Text.ofNat (cleaned.count '{' - cleaned.count '}')
        ++ " unclosed block(s)".toList))
    ∧ ∀ found, answer = .ok found →
      ∀ name ∈ found.layered.toList, name ∈ found.classes.toList := by
  intro cleaned answer
  have hcloses : (∀ p, p <+: cleaned → p.count '}' ≤ p.count '{') ↔
      Text.NeverOvercloses '{' '}' 0 cleaned := by
    simp only [Text.NeverOvercloses, Nat.zero_add]
  have hovercloses : (∃ p, p <+: cleaned ∧ p.count '{' < p.count '}') ↔
      ¬ Text.NeverOvercloses '{' '}' 0 cleaned := by
    simp [← hcloses]
  rw [hcloses, hovercloses]
  have hok : ∀ found, answer = .ok found ↔ scan extension? source = .ok found :=
    fun _ => mapError_message_eq_ok_iff
  refine ⟨?_, ?_, ?_, fun found hfound => layered_subset_classes ((hok found).mp hfound)⟩
  · simp only [hok]
    exact exists_scanCleaned_eq_ok_iff
  · exact mapError_message_eq_unexpectedClose_iff.trans scanCleaned_eq_unexpectedClose_iff
  · intro hnever hcount
    exact congrArg (Except.mapError Fault.message) (scanCleaned_eq_unclosed hnever hcount)

end ClassLint.Stylesheet
