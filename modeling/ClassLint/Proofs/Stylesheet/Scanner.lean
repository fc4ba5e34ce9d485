/-
  ClassLint.Proofs.Stylesheet.Scanner

  The moves of the scanner that cleans a source.  It goes from region to region:
  in code it looks one character ahead, elsewhere the character it is at tells
  all.  What it keeps on the way to some place depends on the text in front of
  that place and on one character behind it.
-/

import ClassLint.Proofs.Stylesheet.Code

namespace ClassLint.Stylesheet

/-! ## Moves -/

namespace Region

/-- The region behind a character of a comment or string; from code there is no
    way back. -/
def behind : Region → Char → Region
  | .code, _ => .code
  | .blockComment star, c => if star && c == '/' then .code else .blockComment (c == '*')
  | .lineComment, c => if c == '\n' then .code else .lineComment
  | .quoted quote escaped, c =>
    if escaped then .quoted quote false
    else if c == '\\' then .quoted quote true
    else if c == quote then .code
    else .quoted quote false

/-- What is kept of a comment or string, last character first. -/
def remnant : Region → Text
  | .code => []
  | .blockComment _ => [' ']
  | .lineComment => ['\n']
  | .quoted quote _ => [quote, quote]

/-- One move of the scanner: what it keeps, last character first, the region it is
    in afterwards, and the text that is left to read. -/
def move? (lineComments : Bool) : Region → Text → Option (Text × Region × Text)
  | _, [] => none
  | .code, c :: rest =>
    if c == '/' && rest.head? == some '*' then some ([], .blockComment false, rest.tail)
    else if lineComments && c == '/' && rest.head? == some '/' then some ([], .lineComment, rest)
    else if isQuote c then some ([], .quoted c false, rest)
    else some ([c], .code, rest)
  | r, c :: rest => some (if r.behind c = .code then r.remnant else [], r.behind c, rest)

end Region

variable {lineComments : Bool} {r r' : Region} {t t' kept : Text}

theorem cleanFrom_nil (out : Text) (r : Region) :
    cleanFrom lineComments out r [] = (r.remnant ++ out).reverse := by
  cases r <;> rfl

/-- In a comment or string cleaning goes on behind the next character. -/
theorem cleanFrom_cons_of_ne_code (hr : r ≠ .code) (out : Text) (c : Char) (t : Text) :
    cleanFrom lineComments out r (c :: t)
      = cleanFrom lineComments ((if r.behind c = .code then r.remnant else []) ++ out)
          (r.behind c) t := by
  cases r with
  | code => exact absurd rfl hr
  | blockComment star =>
    by_cases hend : (star && c == '/') = true
    · simp [cleanFrom, Region.behind, Region.remnant, hend]
    · simp [cleanFrom, Region.behind, hend]
  | lineComment =>
    by_cases hend : c = '\n' <;> simp [cleanFrom, Region.behind, Region.remnant, hend]
  | quoted quote escaped =>
    cases escaped with
    | true => simp [cleanFrom, Region.behind]
    | false =>
      by_cases hescape : c = '\\'
      · simp [cleanFrom, Region.behind, hescape]
      · by_cases hend : c = quote
        · subst hend
          simp [cleanFrom, Region.behind, Region.remnant, hescape]
        · simp [cleanFrom, Region.behind, hescape, hend]

/-- Cleaning keeps what the moves of the scanner keep. -/
theorem cleanFrom_of_move? (h : r.move? lineComments t = some (kept, r', t')) (out : Text) :
    cleanFrom lineComments out r t = cleanFrom lineComments (kept ++ out) r' t' := by
  unfold Region.move? at h
  split at h
  · exact absurd h (by simp)
  · next c rest =>
    split at h
    · next hblock =>
      cases h
      simp only [Bool.and_eq_true, beq_iff_eq] at hblock
      obtain ⟨rfl, hstar⟩ := hblock
      obtain ⟨rest, rfl⟩ := List.head?_eq_some_iff.mp hstar
      rfl
    · next hblock =>
      have hcomment : ∀ rest', c = '/' → rest = '*' :: rest' → False := by
        rintro rest' rfl rfl
        exact hblock rfl
      split at h
      · next hline =>
        cases h
        rw [cleanFrom, if_pos hline]
        · rfl
        · exact hcomment
      · next hline =>
        rw [cleanFrom, if_neg hline]
        · split at h
          · next hquote =>
            cases h
            exact if_pos hquote
          · next hquote =>
            cases h
            exact if_neg hquote
        · exact hcomment
  · next c rest hr =>
    cases h
    exact cleanFrom_cons_of_ne_code hr out c _

/-! ## Reading on -/

/-- Reading on in some region, the scanner keeps a text, last character first, and
    comes to be in another region in front of what is then left. -/
inductive Reaches (lineComments : Bool) : Region → Text → Text → Region → Text → Prop where
  | here (r : Region) (t : Text) : Reaches lineComments r t [] r t
  | move {r r' r'' : Region} {t t' t'' kept kept' : Text}
      (hmove : r.move? lineComments t = some (kept, r', t'))
      (hrest : Reaches lineComments r' t' kept' r'' t'') :
      Reaches lineComments r t (kept' ++ kept) r'' t''

theorem cleanFrom_of_reaches (h : Reaches lineComments r t kept r' t') (out : Text) :
    cleanFrom lineComments out r t = cleanFrom lineComments (kept ++ out) r' t' := by
  induction h generalizing out with
  | here r t => rfl
  | move hmove _ ih => rw [cleanFrom_of_move? hmove, ih, List.append_assoc]

theorem length_lt_of_move? (h : r.move? lineComments t = some (kept, r', t')) :
    t'.length < t.length := by
  unfold Region.move? at h
  split at h
  · exact absurd h (by simp)
  · next c rest =>
    split at h
    · cases h
      simp only [List.length_tail, List.length_cons]
      omega
    · repeat' split at h
      all_goals
        cases h
        simp
  · cases h
    simp

theorem length_le_of_reaches (h : Reaches lineComments r t kept r' t') : t'.length ≤ t.length := by
  induction h with
  | here r t => exact Nat.le_refl _
  | move hmove _ ih => exact Nat.le_trans ih (Nat.le_of_lt (length_lt_of_move? hmove))

/-- A move that stays in front of a text sees no more of it than its first character. -/
theorem move?_append {a x y : Text} (hhead : x.head? = y.head?)
    (h : r.move? lineComments (a ++ x) = some (kept, r', t')) (hlength : x.length ≤ t'.length) :
    ∃ a', t' = a' ++ x ∧ r.move? lineComments (a ++ y) = some (kept, r', a' ++ y) := by
  cases a with
  | nil => exact absurd (length_lt_of_move? h) (Nat.not_lt.mpr hlength)
  | cons c a =>
    have hnext : (a ++ y).head? = (a ++ x).head? := by
      cases a with
      | nil => exact hhead.symm
      | cons d a => rfl
    rw [List.cons_append] at h ⊢
    cases r with
    | code =>
      simp only [Region.move?] at h ⊢
      rw [hnext]
      split at h
      · next hblock =>
        -- the opening of a block comment takes one character more, which is not one of `x`
        cases h
        rw [if_pos hblock]
        cases a with
        | nil =>
          simp only [List.nil_append, Bool.and_eq_true, beq_iff_eq] at hblock
          obtain ⟨rest, rfl⟩ := List.head?_eq_some_iff.mp hblock.2
          exact absurd hlength (by simp)
        | cons d a => exact ⟨a, rfl, rfl⟩
      · next hblock =>
        rw [if_neg hblock]
        refine ⟨a, ?_⟩
        split at h
        · next hline =>
          cases h
          exact ⟨rfl, if_pos hline⟩
        · next hline =>
          rw [if_neg hline]
          split at h
          · next hquote =>
            cases h
            exact ⟨rfl, if_pos hquote⟩
          · next hquote =>
            cases h
            exact ⟨rfl, if_neg hquote⟩
    | blockComment | lineComment | quoted =>
      cases h
      exact ⟨a, rfl, rfl⟩

/-- What the scanner keeps in front of a text depends on the text's first character
    at most. -/
theorem reaches_append {a x y : Text} (hhead : x.head? = y.head?)
    (h : Reaches lineComments r (a ++ x) kept r' x) :
    Reaches lineComments r (a ++ y) kept r' y := by
  generalize ht : a ++ x = t at h
  induction h generalizing a with
  | here r t =>
    have ha : a = [] := by simpa using ht
    rw [ha]
    exact .here r y
  | move hmove hrest ih =>
    rw [← ht] at hmove
    obtain ⟨a', rfl, hmove'⟩ := move?_append hhead hmove (length_le_of_reaches hrest)
    exact .move hmove' (ih hhead rfl)

end ClassLint.Stylesheet
