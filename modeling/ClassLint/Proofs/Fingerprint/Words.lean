/-
  ClassLint.Proofs.Fingerprint.Words

  The words that the stream of a fingerprint is made of: numbers of a fixed
  width, bytes behind their length, times, and lists of files and of texts
  behind their number.  Each ends by itself, for all values that fit: lengths
  below 2^64 and times less than 2^128 nanoseconds away from 1970.
-/

import ClassLint.Proofs.Encoding
import ClassLint.Proofs.Text.Utf8

namespace ClassLint.Fingerprint

/-! ## Numbers -/

theorem length_littleEndian (width n : Nat) : (littleEndian width n).length = width := by
  induction width generalizing n with
  | zero => rfl
  | succ width ih => simp [littleEndian, ih]

/-- Eight more bits hold 256 times as many values. -/
theorem twoTo_succ_byte (width : Nat) : twoTo (8 * (width + 1)) = 256 * twoTo (8 * width) := by
  have hwidth : 8 * (width + 1) = 8 + 8 * width := by omega
  rw [hwidth]
  exact Nat.pow_add 2 8 (8 * width)

/-- A number that fits is determined by its bytes. -/
theorem littleEndian_injective :
    ∀ (width : Nat) {m n : Nat}, m < twoTo (8 * width) → n < twoTo (8 * width) →
      littleEndian width m = littleEndian width n → m = n := by
  intro width
  induction width with
  | zero =>
    intro m n hm hn _
    have hone : twoTo (8 * 0) = 1 := rfl
    omega
  | succ width ih =>
    intro m n hm hn h
    rw [twoTo_succ_byte] at hm hn
    simp only [littleEndian, List.cons.injEq] at h
    obtain ⟨hlow, hhigh⟩ := h
    -- the first byte is the remainder, and the others are those of the quotient
    have hmod : m % 256 = n % 256 := by
      have := congrArg UInt8.toNat hlow
      simpa using this
    have hdiv : m / 256 = n / 256 := ih (by omega) (by omega) hhigh
    omega

/-- A number of a fixed width. -/
theorem selfDelimiting_littleEndian (width : Nat) :
    SelfDelimiting (· < twoTo (8 * width)) (littleEndian width) :=
  .of_length width (length_littleEndian width) fun _ _ hm hn h =>
    littleEndian_injective width hm hn h

/-- A number fits the 64 bits of a length. -/
def FitsLength (n : Nat) : Prop := n < twoTo 64

instance (n : Nat) : Decidable (FitsLength n) := inferInstanceAs (Decidable (n < twoTo 64))

theorem selfDelimiting_length : SelfDelimiting FitsLength length :=
  selfDelimiting_littleEndian 8

/-! ## Bytes behind their length -/

theorem selfDelimiting_sized :
    SelfDelimiting (fun bytes : List UInt8 => FitsLength bytes.length) sized := by
  intro a b r s ha hb h
  unfold sized at h
  rw [List.append_assoc, List.append_assoc] at h
  obtain ⟨hlength, h⟩ := selfDelimiting_length _ _ _ _ ha hb h
  exact List.append_inj h hlength

/-- A text behind the length of its bytes. -/
theorem selfDelimiting_sized_bytes :
    SelfDelimiting (fun t : Text => FitsLength (Text.bytes t).length)
      (fun t => sized (Text.bytes t)) := by
  intro a b r s ha hb h
  obtain ⟨hbytes, hrest⟩ := selfDelimiting_sized _ _ r s ha hb h
  exact ⟨Text.bytes_injective hbytes, hrest⟩

/-! ## Lists behind their number -/

/-- A list of words behind their number. -/
theorem selfDelimiting_counted {α : Type} {valid : α → Prop} {encode : α → List UInt8}
    (hencode : SelfDelimiting valid encode) :
    SelfDelimiting (fun xs : List α => FitsLength xs.length ∧ ∀ x ∈ xs, valid x)
      (fun xs => length xs.length ++ xs.flatMap encode) := by
  intro a b r s ha hb h
  simp only [List.append_assoc] at h
  -- equal numbers first, and then equally many words
  obtain ⟨hlength, h⟩ := selfDelimiting_length _ _ _ _ ha.1 hb.1 h
  exact hencode.flatMap_of_length a b r s ha.2 hb.2 hlength h

/-! ## Times and files -/

/-- A time whose distance from 1970 fits 128 bits.  File systems count 64 bits
    of seconds, whose nanoseconds fit easily. -/
def FitsTime (nanoseconds : Int) : Prop := nanoseconds.natAbs < twoTo 128

instance (nanoseconds : Int) : Decidable (FitsTime nanoseconds) :=
  inferInstanceAs (Decidable (nanoseconds.natAbs < twoTo 128))

theorem length_time (nanoseconds : Int) : (time nanoseconds).length = 17 := by
  simp [time, length_littleEndian]

/-- The sign and the distance tell the time; no time has distance zero and lies before 1970. -/
theorem time_injective {a b : Int} (ha : FitsTime a) (hb : FitsTime b) (h : time a = time b) :
    a = b := by
  simp only [time, List.cons.injEq] at h
  obtain ⟨hsign, hdistance⟩ := h
  have habs : a.natAbs = b.natAbs := littleEndian_injective 16 ha hb hdistance
  -- times on either side of 1970 differ in the first byte already
  by_cases hpos : 0 ≤ a
  · by_cases hpos' : 0 ≤ b
    · omega
    · simp [hpos, hpos'] at hsign
  · by_cases hpos' : 0 ≤ b
    · simp [hpos, hpos'] at hsign
    · omega

theorem selfDelimiting_time : SelfDelimiting FitsTime time :=
  .of_length 17 length_time fun _ _ ha hb h => time_injective ha hb h

/-- The length of the path and the time fit. -/
def FitsStamp (f : FileStamp) : Prop := FitsLength f.path.length ∧ FitsTime f.modified

instance (f : FileStamp) : Decidable (FitsStamp f) :=
  inferInstanceAs (Decidable (FitsLength f.path.length ∧ FitsTime f.modified))

theorem selfDelimiting_stamp :
    SelfDelimiting FitsStamp (fun f => sized f.path ++ time f.modified) := by
  intro a b r s ha hb h
  obtain ⟨hpath, htime, hrest⟩ :=
    selfDelimiting_sized.append_inj selfDelimiting_time ha.1 hb.1 ha.2 hb.2 h
  refine ⟨?_, hrest⟩
  cases a
  cases b
  exact congr (congrArg FileStamp.mk hpath) htime

/-- The number of files fits, and so does every file. -/
def FitsStamps (files : List FileStamp) : Prop :=
  FitsLength files.length ∧ ∀ f ∈ files, FitsStamp f

instance (files : List FileStamp) : Decidable (FitsStamps files) :=
  inferInstanceAs (Decidable (FitsLength files.length ∧ ∀ f ∈ files, FitsStamp f))

theorem selfDelimiting_stamps : SelfDelimiting FitsStamps stamps :=
  selfDelimiting_counted selfDelimiting_stamp

end ClassLint.Fingerprint
