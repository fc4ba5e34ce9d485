/-
  ClassLint.Proofs.Stylesheet.Code

  Text that is code throughout: nothing in it opens a comment, and it holds no
  quote.  Cleaning leaves such a text as it is.  Whether a text is code can be
  told piece by piece, as long as the pieces are kept apart by characters that
  take part in no comment.
-/

import ClassLint.Stylesheet

namespace ClassLint.Stylesheet

/-- Two neighbours in the text open a comment. -/
def opensComment (lineComments : Bool) : Text → Bool
  | a :: b :: rest =>
    (a == '/' && (b == '*' || (lineComments && b == '/'))) || opensComment lineComments (b :: rest)
  | _ => false

/-- The character opens a string. -/
def isQuote (c : Char) : Bool := c == '"' || c == '\''

/-- The text opens neither a comment nor a string. -/
def isCode (lineComments : Bool) (t : Text) : Bool :=
  !opensComment lineComments t && t.all fun c => !isQuote c

/-! ## Pieces -/

variable {lineComments : Bool}

theorem opensComment_append_cons {c : Char} (hslash : c ≠ '/') (hstar : c ≠ '*') (a b : Text) :
    opensComment lineComments (a ++ c :: b)
      = (opensComment lineComments a || opensComment lineComments b) := by
  have hcons : opensComment lineComments (c :: b) = opensComment lineComments b := by
    cases b <;> simp [opensComment, hslash]
  induction a with
  | nil => exact hcons
  | cons x rest ih =>
    cases rest with
    | nil =>
      -- the separator closes no pair that the character before it could open
      have hpair : opensComment lineComments (x :: c :: b) = opensComment lineComments (c :: b) := by
        simp [opensComment, hslash, hstar]
      exact hpair.trans hcons
    | cons y rest =>
      rw [List.cons_append, List.cons_append, opensComment, opensComment, Bool.or_assoc]
      exact congrArg _ ih

theorem isCode_append_cons {c : Char} (hslash : c ≠ '/') (hstar : c ≠ '*')
    (hquote : isQuote c = false) (a b : Text) :
    isCode lineComments (a ++ c :: b) = (isCode lineComments a && isCode lineComments b) := by
  unfold isCode
  rw [opensComment_append_cons hslash hstar, List.all_append, List.all_cons, hquote]
  simp only [Bool.not_or, Bool.not_false, Bool.true_and]
  ac_rfl

theorem isCode_tail {c : Char} {t : Text} (h : isCode lineComments (c :: t) = true) :
    isCode lineComments t = true := by
  simp only [isCode, List.all_cons, Bool.and_eq_true, Bool.not_eq_true'] at h ⊢
  obtain ⟨hopens, -, hquotes⟩ := h
  refine ⟨?_, hquotes⟩
  cases t with
  | nil => rfl
  | cons b rest =>
    rw [opensComment, Bool.or_eq_false_iff] at hopens
    exact hopens.2

/-! ## Cleaning -/

/-- A character of code is kept. -/
theorem cleanFrom_cons_of_isCode {c : Char} {t : Text} (h : isCode lineComments (c :: t) = true)
    (out : Text) :
    cleanFrom lineComments out .code (c :: t) = cleanFrom lineComments (c :: out) .code t := by
  simp only [isCode, List.all_cons, Bool.and_eq_true, Bool.not_eq_true'] at h
  obtain ⟨hopens, hquote, -⟩ := h
  have hquote' : (c == '"' || c == '\'') = false := hquote
  cases t with
  | nil => simp [cleanFrom, hquote']
  | cons b rest =>
    rw [opensComment, Bool.or_eq_false_iff] at hopens
    have hpair := hopens.1
    by_cases hslash : c = '/'
    · subst hslash
      simp only [beq_self_eq_true, Bool.true_and, Bool.or_eq_false_iff, beq_eq_false_iff_ne] at hpair
      simp [cleanFrom, hpair.1, hpair.2]
    · simp [cleanFrom, hslash, hquote']

theorem cleanFrom_of_isCode {t : Text} (h : isCode lineComments t = true) (out : Text) :
    cleanFrom lineComments out .code t = out.reverse ++ t := by
  induction t generalizing out with
  | nil => simp [cleanFrom]
  | cons c rest ih =>
    rw [cleanFrom_cons_of_isCode h, ih (isCode_tail h), List.reverse_cons, List.append_assoc]
    rfl

/-- Cleaning leaves code as it is. -/
theorem clean_of_isCode {t : Text} (h : isCode lineComments t = true) :
    clean lineComments t = t :=
  cleanFrom_of_isCode h []

end ClassLint.Stylesheet
