/-
  ClassLint.Proofs.Text.Pieces

  The pieces of a text between separating characters.  There is at least one of
  them, no separator is in any, and with the separators put back between them
  they are the text again.
-/

import ClassLint.Text

namespace ClassLint.Text

theorem split_ne_nil (separates : Char → Bool) (t : Text) : split separates t ≠ [] := by
  cases t with
  | nil => simp [split_nil]
  | cons c t =>
    rw [split_cons]
    split
    · exact List.cons_ne_nil _ _
    · cases split separates t <;> simp [extendFirst]

/-- A separator ends a piece, wherever it stands. -/
theorem split_append_cons {separates : Char → Bool} {c : Char} (hc : separates c = true)
    (a b : Text) : split separates (a ++ c :: b) = split separates a ++ split separates b := by
  induction a with
  | nil => rw [List.nil_append, split_cons, if_pos hc, split_nil]; rfl
  | cons d a ih =>
    rw [List.cons_append, split_cons, split_cons, ih]
    split
    · rfl
    · cases hs : split separates a with
      | nil => exact absurd hs (split_ne_nil separates a)
      | cons piece rest => rfl

theorem mem_of_mem_extendFirst {c d : Char} {pieces : List Text} {piece : Text}
    (hpiece : piece ∈ extendFirst c pieces) (hd : d ∈ piece) :
    d = c ∨ ∃ q ∈ pieces, d ∈ q := by
  cases pieces with
  | nil =>
    rw [extendFirst, List.mem_singleton] at hpiece
    subst hpiece
    exact Or.inl (List.mem_singleton.mp hd)
  | cons first rest =>
    rcases List.mem_cons.mp hpiece with rfl | hpiece
    · rcases List.mem_cons.mp hd with rfl | hd
      · exact Or.inl rfl
      · exact Or.inr ⟨first, List.mem_cons_self, hd⟩
    · exact Or.inr ⟨piece, List.mem_cons_of_mem _ hpiece, hd⟩

/-- There is no separator in a piece. -/
theorem not_separates_of_mem_split {separates : Char → Bool} {t piece : Text}
    (hpiece : piece ∈ split separates t) {d : Char} (hd : d ∈ piece) : separates d = false := by
  induction t generalizing piece with
  | nil =>
    rw [split_nil, List.mem_singleton] at hpiece
    subst hpiece
    exact absurd hd List.not_mem_nil
  | cons c t ih =>
    rw [split_cons] at hpiece
    split at hpiece
    · rcases List.mem_cons.mp hpiece with rfl | hpiece
      · exact absurd hd List.not_mem_nil
      · exact ih hpiece hd
    · next hc =>
      rcases mem_of_mem_extendFirst hpiece hd with rfl | ⟨q, hq, hd⟩
      · exact Bool.eq_false_iff.mpr hc
      · exact ih hq hd

/-- A text without separators is a single piece. -/
theorem split_eq_singleton {separates : Char → Bool} {t : Text}
    (h : ∀ c ∈ t, separates c = false) : split separates t = [t] := by
  induction t with
  | nil => rfl
  | cons c t ih =>
    have hc : ¬separates c = true := by
      rw [h c List.mem_cons_self]
      exact Bool.false_ne_true
    rw [split_cons, if_neg hc, ih fun d hd => h d (List.mem_cons_of_mem c hd)]
    rfl

/-- Pieces that each end with a separator are the pieces of the whole text, in front
    of an empty one. -/
theorem split_flatMap {separates : Char → Bool} {c : Char} (hc : separates c = true)
    {pieces : List Text} (h : ∀ piece ∈ pieces, ∀ d ∈ piece, separates d = false) :
    split separates (pieces.flatMap fun piece => piece ++ [c]) = pieces ++ [[]] := by
  induction pieces with
  | nil => rfl
  | cons piece rest ih =>
    rw [List.flatMap_cons, List.append_assoc, List.singleton_append, split_append_cons hc,
      split_eq_singleton (h piece List.mem_cons_self),
      ih fun q hq => h q (List.mem_cons_of_mem piece hq)]
    rfl

theorem not_isBlank_of_mem_words {t w : Text} (hw : w ∈ words t) {c : Char} (hc : c ∈ w) :
    isBlank c = false :=
  not_separates_of_mem_split (List.mem_filter.mp hw).1 hc

/-- A blank character keeps the words on both sides of it apart. -/
theorem words_append_cons {c : Char} (hc : isBlank c = true) (a b : Text) :
    words (a ++ c :: b) = words a ++ words b := by
  unfold words
  rw [split_append_cons hc, List.filter_append]

/-- So do several of them. -/
theorem words_append_blank {gap : Text} (hne : gap ≠ []) (hgap : ∀ c ∈ gap, isBlank c = true)
    (a b : Text) : words (a ++ (gap ++ b)) = words a ++ words b := by
  induction gap generalizing a with
  | nil => exact absurd rfl hne
  | cons c gap ih =>
    rw [List.cons_append, words_append_cons (hgap c List.mem_cons_self)]
    cases gap with
    | nil => rfl
    | cons d gap =>
      have hrest := ih (List.cons_ne_nil d gap) (fun e he => hgap e (List.mem_cons_of_mem c he)) []
      rw [List.nil_append] at hrest
      rw [hrest]
      rfl

theorem join_cons {c : Char} {piece : Text} {pieces : List Text} (h : pieces ≠ []) :
    join [c] (piece :: pieces) = piece ++ c :: join [c] pieces := by
  obtain ⟨next, rest, rfl⟩ := List.exists_cons_of_ne_nil h
  rw [List.append_cons]
  rfl

/-- The words of several texts with blanks between them are those of each text. -/
theorem words_join {c : Char} (hc : isBlank c = true) (pieces : List Text) :
    words (join [c] pieces) = pieces.flatMap words := by
  induction pieces with
  | nil => rfl
  | cons piece rest ih =>
    cases rest with
    | nil => rw [join, List.flatMap_singleton]
    | cons next rest =>
      rw [join_cons (List.cons_ne_nil next rest), words_append_cons hc, ih]
      rfl

/-- The pieces between a character, with the character put back between them. -/
theorem append_flatMap_of_split {c : Char} {t piece : Text} {pieces : List Text}
    (h : split (· == c) t = piece :: pieces) : piece ++ pieces.flatMap (c :: ·) = t := by
  induction t generalizing piece pieces with
  | nil =>
    rw [split_nil, List.cons.injEq] at h
    obtain ⟨rfl, rfl⟩ := h
    rfl
  | cons d t ih =>
    obtain ⟨first, rest, hsplit⟩ := List.exists_cons_of_ne_nil (split_ne_nil (· == c) t)
    have htext := ih hsplit
    rw [split_cons, hsplit] at h
    split at h
    · next hd =>
      rw [List.cons.injEq] at h
      obtain ⟨rfl, rfl⟩ := h
      rw [List.nil_append, List.flatMap_cons, List.cons_append, htext, beq_iff_eq.mp hd]
    · rw [extendFirst, List.cons.injEq] at h
      obtain ⟨rfl, rfl⟩ := h
      rw [List.cons_append, htext]

end ClassLint.Text
