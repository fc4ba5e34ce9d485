/-
  ClassLint.Proofs.Encoding

  Encoders whose code words end by themselves.  Whatever follows a code word,
  the word tells where it ends, so that two streams that begin with a code word
  each and are equal hold the same value there and go on with the same rest.
  Words of a fixed length, sequences of known length and whole streams of words
  inherit this from their parts.
-/

import ClassLint.Fingerprint

namespace ClassLint

variable {α β γ : Type}

/-- Equal streams that begin with code words of valid values hold the same value
    there, and the same rest behind it. -/
def SelfDelimiting (valid : α → Prop) (encode : α → List β) : Prop :=
  ∀ a b r s, valid a → valid b → encode a ++ r = encode b ++ s → a = b ∧ r = s

namespace SelfDelimiting

variable {valid : α → Prop} {encode : α → List β}

/-! ## Words -/

/-- An injective encoder whose words all have the same length. -/
theorem of_length (length : Nat) (hlength : ∀ a, (encode a).length = length)
    (hinj : ∀ a b, valid a → valid b → encode a = encode b → a = b) :
    SelfDelimiting valid encode := by
  intro a b r s ha hb h
  obtain ⟨hword, hrest⟩ := List.append_inj h (by rw [hlength, hlength])
  exact ⟨hinj a b ha hb hword, hrest⟩

/-- Two words one after the other. -/
theorem append_inj {valid' : γ → Prop} {encode' : γ → List β}
    (hencode : SelfDelimiting valid encode) (hencode' : SelfDelimiting valid' encode')
    {a b : α} {c d : γ} {r s : List β} (ha : valid a) (hb : valid b) (hc : valid' c)
    (hd : valid' d) (h : encode a ++ encode' c ++ r = encode b ++ encode' d ++ s) :
    a = b ∧ c = d ∧ r = s := by
  rw [List.append_assoc, List.append_assoc] at h
  obtain ⟨hab, h⟩ := hencode a b _ _ ha hb h
  obtain ⟨hcd, hrs⟩ := hencode' c d r s hc hd h
  exact ⟨hab, hcd, hrs⟩

/-! ## Sequences of words -/

/-- Sequences of equally many words. -/
theorem flatMap_of_length (hencode : SelfDelimiting valid encode) :
    ∀ (xs ys : List α) (r s : List β), (∀ x ∈ xs, valid x) → (∀ y ∈ ys, valid y) →
      xs.length = ys.length → xs.flatMap encode ++ r = ys.flatMap encode ++ s →
      xs = ys ∧ r = s := by
  intro xs
  induction xs with
  | nil =>
    intro ys r s _ _ hlength h
    obtain rfl : ys = [] := List.length_eq_zero_iff.mp hlength.symm
    exact ⟨rfl, h⟩
  | cons x xs ih =>
    intro ys r s hxs hys hlength h
    cases ys with
    | nil => exact absurd hlength (by simp)
    | cons y ys =>
      rw [List.flatMap_cons, List.flatMap_cons, List.append_assoc, List.append_assoc] at h
      obtain ⟨hxy, h⟩ := hencode x y _ _ (hxs x List.mem_cons_self) (hys y List.mem_cons_self) h
      obtain ⟨hrest, hrs⟩ := ih ys r s (fun z hz => hxs z (List.mem_cons_of_mem x hz))
        (fun z hz => hys z (List.mem_cons_of_mem y hz)) (by simpa using hlength) h
      exact ⟨by rw [hxy, hrest], hrs⟩

/-- Whole streams of words, none of which is empty. -/
theorem flatMap_injective (hencode : SelfDelimiting valid encode)
    (hne : ∀ a, encode a ≠ []) :
    ∀ xs ys : List α, (∀ x ∈ xs, valid x) → (∀ y ∈ ys, valid y) →
      xs.flatMap encode = ys.flatMap encode → xs = ys := by
  intro xs
  induction xs with
  | nil =>
    intro ys _ _ h
    cases ys with
    | nil => rfl
    | cons y ys => exact absurd (List.append_eq_nil_iff.mp h.symm).1 (hne y)
  | cons x xs ih =>
    intro ys hxs hys h
    cases ys with
    | nil => exact absurd (List.append_eq_nil_iff.mp h).1 (hne x)
    | cons y ys =>
      rw [List.flatMap_cons, List.flatMap_cons] at h
      obtain ⟨hxy, h⟩ := hencode x y _ _ (hxs x List.mem_cons_self) (hys y List.mem_cons_self) h
      have hrest := ih ys (fun z hz => hxs z (List.mem_cons_of_mem x hz))
        (fun z hz => hys z (List.mem_cons_of_mem y hz)) h
      rw [hxy, hrest]

end SelfDelimiting

end ClassLint
