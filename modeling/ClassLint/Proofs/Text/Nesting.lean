/-
  ClassLint.Proofs.Text.Nesting

  Opening and closing characters, counted.  A text that is read behind some open
  ones never closes more than are open if that is so for each of its beginnings.
  A character in front changes how many are open by what it opens and closes, and
  nothing else about it matters.
-/

import ClassLint.Text

namespace ClassLint.Text

/-- Behind `depth` open ones, no beginning of the text closes more than are open. -/
def NeverOvercloses (opening closing : Char) (depth : Nat) (t : Text) : Prop :=
  ∀ p, p <+: t → p.count closing ≤ depth + p.count opening

variable {opening closing : Char} {depth : Nat}

theorem neverOvercloses_nil : NeverOvercloses opening closing depth [] := by
  intro p hp
  rw [List.prefix_nil.mp hp]
  exact Nat.zero_le _

theorem count_cons_add (c d : Char) (t : Text) : (c :: t).count d = [c].count d + t.count d := by
  rw [← List.singleton_append, List.count_append]

/-- Behind its first character a text is read with as many open as that leaves. -/
theorem neverOvercloses_cons {depth' : Nat} {c : Char}
    (hdepth : depth' + [c].count closing = depth + [c].count opening) {t : Text} :
    NeverOvercloses opening closing depth (c :: t) ↔ NeverOvercloses opening closing depth' t := by
  constructor
  · intro h p hp
    have hcons := h (c :: p) (List.cons_prefix_cons.mpr ⟨rfl, hp⟩)
    rw [count_cons_add c closing, count_cons_add c opening] at hcons
    omega
  · intro h p hp
    rcases List.prefix_cons_iff.mp hp with rfl | ⟨q, rfl, hq⟩
    · exact Nat.zero_le _
    · have htail := h q hq
      rw [count_cons_add c closing, count_cons_add c opening]
      omega

/-- One character more is one beginning more, the whole text. -/
theorem neverOvercloses_concat {t : Text} {c : Char} :
    NeverOvercloses opening closing depth (t ++ [c]) ↔ NeverOvercloses opening closing depth t
      ∧ (t ++ [c]).count closing ≤ depth + (t ++ [c]).count opening := by
  constructor
  · intro h
    exact ⟨fun p hp => h p (hp.trans (List.prefix_append t [c])), h _ (List.prefix_refl _)⟩
  · rintro ⟨hinit, hwhole⟩ p hp
    rcases List.prefix_concat_iff.mp hp with rfl | hp
    · exact hwhole
    · exact hinit p hp

/-- Where nothing is open, nothing can be closed. -/
theorem not_neverOvercloses_close (hne : closing ≠ opening) (t : Text) :
    ¬ NeverOvercloses opening closing 0 (closing :: t) := by
  intro h
  have hone := h [closing] (List.cons_prefix_cons.mpr ⟨rfl, List.nil_prefix⟩)
  simp [hne] at hone

end ClassLint.Text
