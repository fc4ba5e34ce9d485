/-
  ClassLint.Proofs.Path.Spelling

  What two spellings of one path have in common.  They start at the same place,
  take the same steps, and both or neither of them are empty; they differ in
  idle pieces only, which are empty or a dot.  Where a path is followed these
  matter at the end alone, so that `norm` keeps the steps and at most one idle
  piece behind them.  A path joined to two spellings of a directory gives the
  same steps and ends alike.
-/

import ClassLint.Path
import ClassLint.Proofs.Text.Pieces

namespace ClassLint

namespace Path

/-! ## Steps -/

/-- The step of a piece that is not idle. -/
def stepOf (piece : Text) : Component :=
  if piece = ['.', '.'] then .up else .name piece

theorem stepOf_injective {a b : Text} (h : stepOf a = stepOf b) : a = b := by
  unfold stepOf at h
  by_cases ha : a = ['.', '.']
  · by_cases hb : b = ['.', '.']
    · rw [ha, hb]
    · simp [ha, hb] at h
  · by_cases hb : b = ['.', '.']
    · simp [ha, hb] at h
    · simpa [ha, hb] using h

/-- The pieces of a path that take a step. -/
def steps (pieces : List Text) : List Text := pieces.filter fun piece => !isIdle piece

@[simp]
theorem steps_append (a b : List Text) : steps (a ++ b) = steps a ++ steps b := by
  simp [steps]

theorem step?_of_isIdle {piece : Text} (h : isIdle piece = true) : step? piece = none := by
  simp [step?, h]

theorem step?_of_not_isIdle {piece : Text} (h : isIdle piece = false) :
    step? piece = some (stepOf piece) := by
  unfold step? stepOf
  rw [h]
  by_cases hup : piece = ['.', '.'] <;> simp [hup]

theorem filterMap_step? (pieces : List Text) :
    pieces.filterMap step? = (steps pieces).map stepOf := by
  induction pieces with
  | nil => rfl
  | cons piece rest ih =>
    cases hidle : isIdle piece with
    | true =>
      have hsteps : steps (piece :: rest) = steps rest := by simp [steps, hidle]
      rw [List.filterMap_cons_none (step?_of_isIdle hidle), hsteps, ih]
    | false =>
      have hsteps : steps (piece :: rest) = piece :: steps rest := by simp [steps, hidle]
      rw [List.filterMap_cons_some (step?_of_not_isIdle hidle), hsteps, ih, List.map_cons]

/-- What stands before the steps among the components. -/
def lead (p : Path) : List Component :=
  if p.isAbsolute then [.root]
  else if (pieces p.text).head? = some ['.'] then [.here]
  else []

theorem components_eq (p : Path) :
    p.components = p.lead ++ (steps (pieces p.text)).map stepOf := by
  unfold components lead
  by_cases habs : p.isAbsolute = true
  · rw [if_pos habs, if_pos habs, filterMap_step?, List.singleton_append]
  · rw [if_neg habs, if_neg habs]
    by_cases hdot : (pieces p.text).head? = some ['.']
    · obtain ⟨rest, hpieces⟩ := List.head?_eq_some_iff.mp hdot
      -- the `.` at the start is idle, and counts only there
      have hsteps : steps (['.'] :: rest) = steps rest := by simp [steps, isIdle]
      rw [if_pos hdot, hpieces, hsteps, List.singleton_append, ← filterMap_step?]
      rfl
    · rw [if_neg hdot, List.nil_append, ← filterMap_step?]
      cases hpieces : pieces p.text with
      | nil => rfl
      | cons piece rest =>
        have hne : piece ≠ ['.'] := by
          intro heq
          rw [hpieces, heq] at hdot
          exact hdot rfl
        split
        · next heq => exact absurd (List.cons.inj heq).1 hne
        · rfl

/-- A component that stands before the steps is none of them. -/
theorem map_stepOf_ne_cons {pieces : List Text} {c : Component} {rest : List Component}
    (hc : c = .root ∨ c = .here) : (pieces.map stepOf) ≠ c :: rest := by
  intro h
  cases pieces with
  | nil => exact absurd h (by simp)
  | cons piece pieces =>
    simp only [List.map_cons, List.cons.injEq] at h
    have hstep := h.1
    unfold stepOf at hstep
    rcases hc with rfl | rfl <;> split at hstep <;> exact absurd hstep (by simp)

theorem lead_cases (p : Path) :
    (p.lead = [.root] ∧ p.isAbsolute = true) ∨ (p.lead = [.here] ∧ p.isAbsolute = false)
      ∨ (p.lead = [] ∧ p.isAbsolute = false) := by
  unfold lead
  by_cases habs : p.isAbsolute = true
  · simp [habs]
  · simp only [Bool.not_eq_true] at habs
    simp only [habs, Bool.false_eq_true, if_false]
    split <;> simp

theorem same_refl (p : Path) : p.same p = true := by simp [same]

/-- Two spellings of a path start at the same place and take the same steps. -/
theorem same_iff_lead_steps {p q : Path} (h : p.same q = true) :
    p.lead = q.lead ∧ steps (pieces p.text) = steps (pieces q.text) := by
  have hcomponents : p.components = q.components := by simpa [same] using h
  rw [components_eq, components_eq] at hcomponents
  have hsteps : ∀ {a b : List Text}, a.map stepOf = b.map stepOf → a = b :=
    fun hmap => List.map_inj_right (fun _ _ => stepOf_injective) |>.mp hmap
  rcases p.lead_cases with ⟨hp, -⟩ | ⟨hp, -⟩ | ⟨hp, -⟩ <;>
    rcases q.lead_cases with ⟨hq, -⟩ | ⟨hq, -⟩ | ⟨hq, -⟩ <;>
    rw [hp, hq] at hcomponents ⊢ <;>
    simp only [List.cons_append, List.nil_append, List.cons.injEq, true_and, reduceCtorEq,
      false_and] at hcomponents
  · exact ⟨rfl, hsteps hcomponents⟩
  · exact absurd hcomponents.symm (map_stepOf_ne_cons (Or.inl rfl))
  · exact ⟨rfl, hsteps hcomponents⟩
  · exact absurd hcomponents.symm (map_stepOf_ne_cons (Or.inr rfl))
  · exact absurd hcomponents (map_stepOf_ne_cons (Or.inl rfl))
  · exact absurd hcomponents (map_stepOf_ne_cons (Or.inr rfl))
  · exact ⟨rfl, hsteps hcomponents⟩

/-- The start of a path says whether the path is absolute. -/
theorem isAbsolute_of_lead {p q : Path} (h : p.lead = q.lead) : p.isAbsolute = q.isAbsolute := by
  rcases p.lead_cases with ⟨hp, habs⟩ | ⟨hp, habs⟩ | ⟨hp, habs⟩ <;>
    rcases q.lead_cases with ⟨hq, habs'⟩ | ⟨hq, habs'⟩ | ⟨hq, habs'⟩ <;>
    rw [hp, hq] at h <;> rw [habs, habs'] <;> exact absurd h (by simp)

/-! ## Empty paths -/

/-- The first piece of a text is empty only before a slash or in the empty text. -/
theorem pieces_cons {c : Char} (hc : c ≠ '/') (t : Text) :
    ∃ piece rest, pieces (c :: t) = (c :: piece) :: rest := by
  have hsep : (c == '/') = false := by simpa using hc
  unfold pieces
  rw [Text.split_cons, hsep]
  cases hs : Text.split (· == '/') t with
  | nil => exact absurd hs (Text.split_ne_nil _ t)
  | cons piece rest => exact ⟨piece, rest, rfl⟩

/-- Only the empty path has neither a start of its own nor steps. -/
theorem text_eq_nil_iff (p : Path) :
    p.text = [] ↔ p.lead = [] ∧ steps (pieces p.text) = [] := by
  constructor
  · intro h
    rw [lead, isAbsolute, h]
    exact ⟨rfl, rfl⟩
  · rintro ⟨hlead, hsteps⟩
    cases htext : p.text with
    | nil => rfl
    | cons c t =>
      exfalso
      rw [htext] at hsteps
      by_cases hc : c = '/'
      · -- an absolute path has the root before its steps
        have habs : p.isAbsolute = true := by simp [isAbsolute, htext, hc]
        rw [lead, if_pos habs] at hlead
        exact absurd hlead (by simp)
      · obtain ⟨piece, rest, hpieces⟩ := pieces_cons hc t
        have habs : p.isAbsolute = false := by simp [isAbsolute, htext, hc]
        rw [lead, habs, htext, hpieces] at hlead
        rw [hpieces] at hsteps
        by_cases hidle : isIdle (c :: piece) = true
        · have hdot : c :: piece = ['.'] := by simpa [isIdle] using hidle
          rw [hdot] at hlead
          exact absurd hlead (by simp)
        · simp [steps, hidle] at hsteps

/-- Both or neither of two spellings of a path are empty. -/
theorem text_eq_nil_of_same {p q : Path} (h : p.same q = true) : p.text = [] ↔ q.text = [] := by
  obtain ⟨hlead, hsteps⟩ := same_iff_lead_steps h
  rw [text_eq_nil_iff, text_eq_nil_iff, hlead, hsteps]

/-! ## What matters to someone who follows a path -/

/-- The steps of a path, and an idle piece behind them if the path ends with one. -/
def norm (pieces : List Text) : List Text :=
  steps pieces ++ if pieces.getLast?.any isIdle then [[]] else []

theorem norm_append {a b : List Text} (hb : b ≠ []) : norm (a ++ b) = steps a ++ norm b := by
  obtain ⟨piece, hlast⟩ : ∃ piece, b.getLast? = some piece :=
    ⟨b.getLast hb, List.getLast?_eq_some_getLast hb⟩
  simp only [norm, steps_append, List.getLast?_append, hlast, Option.some_or, List.append_assoc]

/-- The pieces of a relative path joined to a directory: what stands before them
    takes the steps of the directory. -/
theorem norm_pieces_join (p q : Path) (hq : q.isAbsolute = false) :
    norm (pieces (p.join q).text) = steps (pieces p.text) ++ norm (pieces q.text) := by
  have hne : pieces q.text ≠ [] := Text.split_ne_nil _ _
  unfold join
  rw [hq]
  simp only [Bool.false_eq_true, if_false]
  split
  · next hend =>
    -- the directory is empty or ends with its own slash
    cases hp : p.text with
    | nil => rfl
    | cons c t =>
      have hlast : p.text.getLast? = some '/' := by simpa [hp] using hend
      obtain ⟨front, hfront⟩ := List.getLast?_eq_some_iff.mp hlast
      rw [← hp, hfront, List.append_assoc, List.singleton_append]
      have hsplit : pieces (front ++ '/' :: q.text) = pieces front ++ pieces q.text :=
        Text.split_append_cons rfl front q.text
      have hslash : pieces (front ++ ['/']) = pieces front ++ pieces [] :=
        Text.split_append_cons rfl front []
      have hidle : steps (pieces []) = [] := by decide
      rw [hsplit, hslash, norm_append hne, steps_append, hidle, List.append_nil]
  · have hsplit : pieces (p.text ++ '/' :: q.text) = pieces p.text ++ pieces q.text :=
      Text.split_append_cons rfl p.text q.text
    rw [hsplit, norm_append hne]

/-- A relative path joined to a directory starts where the directory does. -/
theorem isAbsolute_join {p q : Path} (hq : q.isAbsolute = false) :
    (p.join q).isAbsolute = p.isAbsolute := by
  unfold join isAbsolute
  unfold isAbsolute at hq
  rw [hq]
  cases hp : p.text with
  | nil => simpa using hq
  | cons c t =>
    simp only [Bool.false_eq_true, if_false, List.head?_cons]
    split <;> rw [List.cons_append, List.head?_cons]

theorem join_text_eq_nil_iff {p q : Path} (hq : q.isAbsolute = false) :
    (p.join q).text = [] ↔ p.text = [] ∧ q.text = [] := by
  unfold join
  rw [hq]
  cases hp : p.text with
  | nil => simp
  | cons c t =>
    simp only [Bool.false_eq_true, if_false]
    split <;> simp

end Path

end ClassLint
