/-
  ClassLint.Proofs.Stylesheet.Steps

  What one character does to a scan, said once.  Facts about whole texts come from
  this by induction: what every character of a text keeps is kept by the text.
-/

import ClassLint.Stylesheet

namespace ClassLint.Stylesheet

namespace ScanState

/-- A brace opens a block or closes the innermost one, a semicolon ends a statement,
    and any other character becomes pending. -/
theorem step_cases (s : ScanState) (c : Char) :
    (c = '{' ∧ s.step c = .ok (s.openBlock (Text.trim s.pending.reverse)))
      ∨ (c = '}' ∧ s.stack = [] ∧ s.step c = .error .unexpectedClose)
      ∨ (c = '}' ∧ ∃ frame outer, s.stack = frame :: outer
        ∧ s.step c = .ok { s with stack := outer, pending := [] })
      ∨ (c = ';' ∧ s.step c = .ok { s with pending := [] })
      ∨ ((c ≠ '{' ∧ c ≠ '}' ∧ c ≠ ';') ∧ s.step c = .ok { s with pending := c :: s.pending }) := by
  by_cases hopen : c = '{'
  · exact Or.inl ⟨hopen, by rw [step, if_pos hopen]⟩
  refine Or.inr ?_
  by_cases hclose : c = '}'
  · rw [step, if_neg hopen, if_pos hclose]
    cases hstack : s.stack with
    | nil => exact Or.inl ⟨hclose, rfl, rfl⟩
    | cons frame outer => exact Or.inr (Or.inl ⟨hclose, frame, outer, rfl, rfl⟩)
  refine Or.inr (Or.inr ?_)
  by_cases hsemicolon : c = ';'
  · exact Or.inl ⟨hsemicolon, by rw [step, if_neg hopen, if_neg hclose, if_pos hsemicolon]⟩
  · exact Or.inr ⟨⟨hopen, hclose, hsemicolon⟩,
      by rw [step, if_neg hopen, if_neg hclose, if_neg hsemicolon]⟩

/-- Where a character has brought the scan. -/
theorem step_eq_ok {s next : ScanState} {c : Char} (h : s.step c = .ok next) :
    (c = '{' ∧ next = s.openBlock (Text.trim s.pending.reverse))
      ∨ (∃ frame outer, s.stack = frame :: outer ∧ next = { s with stack := outer, pending := [] })
      ∨ next = { s with pending := [] }
      ∨ ((c ≠ '{' ∧ c ≠ '}' ∧ c ≠ ';') ∧ next = { s with pending := c :: s.pending }) := by
  rcases step_cases s c with ⟨hc, hstep⟩ | ⟨-, -, hstep⟩ | ⟨-, frame, outer, hstack, hstep⟩
    | ⟨-, hstep⟩ | ⟨hc, hstep⟩ <;> rw [hstep] at h
  · exact Or.inl ⟨hc, (Except.ok.inj h).symm⟩
  · exact absurd h nofun
  · exact Or.inr (Or.inl ⟨frame, outer, hstack, (Except.ok.inj h).symm⟩)
  · exact Or.inr (Or.inr (Or.inl (Except.ok.inj h).symm))
  · exact Or.inr (Or.inr (Or.inr ⟨hc, (Except.ok.inj h).symm⟩))

/-- What every character of a text keeps is kept by the text. -/
theorem run_induction {P : ScanState → Prop} {t : Text} {s final : ScanState}
    (hstep : ∀ s c next, c ∈ t → P s → s.step c = .ok next → P next)
    (hs : P s) (hrun : s.run t = .ok final) : P final := by
  induction t generalizing s with
  | nil =>
    cases hrun
    exact hs
  | cons c rest ih =>
    unfold run at hrun
    split at hrun
    · next next hnext =>
      exact ih (fun s d next hd => hstep s d next (List.mem_cons_of_mem c hd))
        (hstep s c next List.mem_cons_self hs hnext) hrun
    · exact absurd hrun nofun

end ScanState

/-- What a stylesheet defines is what was found at the end of its text. -/
theorem scanCleaned_eq_ok {cleaned : Text} {found : Classes}
    (h : scanCleaned cleaned = .ok found) :
    ∃ s, ScanState.start.run cleaned = .ok s ∧ s.found = found := by
  unfold scanCleaned at h
  split at h
  · exact absurd h (by simp)
  · next s hrun =>
    split at h
    · exact ⟨s, hrun, Except.ok.inj h⟩
    · exact absurd h (by simp)

end ClassLint.Stylesheet
