/-
  ClassLint.Proofs.Json.Printed

  Values that are printed are read back.  The values are those whose numbers are
  integers of 64 bits and whose arrays and objects are not nested too deep for
  the reader.
-/

import ClassLint.Proofs.Json.Quoted
import Mathlib.Data.List.DropRight

namespace ClassLint.Json

/-! ## Numbers -/

theorem isDigit_of_mem_ofNat {n : Nat} {c : Char} (h : c ∈ Text.ofNat n) : c.isDigit = true :=
  Nat.isDigit_of_mem_toDigits (by decide) (by decide) h

theorem exists_ofNat (n : Nat) : ∃ c t, Text.ofNat n = c :: t ∧ c.isDigit = true := by
  obtain ⟨c, t, hdigits⟩ := List.exists_cons_of_ne_nil (Nat.toDigits_ne_nil (n := n) (b := 10))
  refine ⟨c, t, hdigits, isDigit_of_mem_ofNat (n := n) ?_⟩
  rw [Text.ofNat, hdigits]
  exact List.mem_cons_self

/-- Only zero is written with a zero in front. -/
theorem head?_ofNat {n : Nat} (h : 1 < (Text.ofNat n).length) :
    (Text.ofNat n).head? ≠ some '0' := by
  induction n using Nat.strongRecOn with
  | ind n ih =>
    unfold Text.ofNat at h ⊢
    by_cases hn : n < 10
    · rw [Nat.toDigits_of_lt_base hn] at h
      exact absurd h (by simp)
    · have hsplit := Nat.toDigits_of_base_le (b := 10) (by decide) (Nat.le_of_not_lt hn)
      have hhead := List.isSome_head?.mpr (Nat.toDigits_ne_nil (n := n / 10) (b := 10))
      rw [hsplit, List.head?_append, Option.or_of_isSome hhead]
      by_cases hlow : n / 10 < 10
      · rw [Nat.toDigits_of_lt_base hlow, List.head?_cons]
        intro hzero
        have hdigit := Nat.digitChar_eq_zero.mp (Option.some.inj hzero)
        omega
      · refine ih (n / 10) (by omega) ?_
        unfold Text.ofNat
        rw [Nat.toDigits_of_base_le (b := 10) (by decide) (Nat.le_of_not_lt hlow)]
        have hpos := Nat.length_toDigits_pos (b := 10) (n := n / 10 / 10)
        simp only [List.length_append, List.length_singleton]
        omega

/-- A digit extends what was read before it. -/
theorem integerDigits_digitChar {k d n : Nat} (hd : d < 10) (hsum : k * 10 + d = n)
    (hfits : n < twoTo 64) (behind : Text) :
    Decimal.integerDigits ⟨k, 0⟩ (d.digitChar :: behind) = Decimal.integerDigits ⟨n, 0⟩ behind := by
  have hzero : '0'.toNat = 48 := by decide
  have hdigit : Decimal.digit d.digitChar = d := by
    rw [Decimal.digit, Nat.toNat_digitChar_of_lt_ten hd, hzero]
    omega
  have hnext : Decimal.fits n = true := decide_eq_true hfits
  rw [Decimal.integerDigits, hdigit, hsum]
  exact if_pos hnext

theorem integerDigits_ofNat {n : Nat} (h : n < twoTo 64) (behind : Text) :
    Decimal.integerDigits ⟨0, 0⟩ (Text.ofNat n ++ behind)
      = Decimal.integerDigits ⟨n, 0⟩ behind := by
  induction n using Nat.strongRecOn generalizing behind with
  | ind n ih =>
    unfold Text.ofNat at ih ⊢
    by_cases hn : n < 10
    · rw [Nat.toDigits_of_lt_base hn, List.singleton_append]
      exact integerDigits_digitChar hn (by omega) h behind
    · rw [Nat.toDigits_of_base_le (by decide) (Nat.le_of_not_lt hn), List.append_assoc,
        List.singleton_append, ih (n / 10) (by omega) (by omega)]
      exact integerDigits_digitChar (by omega) (by omega) h behind

/-- What may stand behind a number: nothing that could be part of it. -/
def EndsNumber (behind : Text) : Prop :=
  ∀ c, behind.head? = some c → c.isDigit = false ∧ c ≠ '.' ∧ c ≠ 'e' ∧ c ≠ 'E'

theorem magnitude?_ofNat {n : Nat} (h : n < twoTo 64) (negative : Bool) {behind : Text}
    (hbehind : EndsNumber behind) :
    magnitude? negative (Text.ofNat n ++ behind)
      = some (wholeNumber? negative false ⟨n, 0⟩, behind) := by
  have hdigits : ∀ c ∈ Text.ofNat n, c.isDigit = true := fun c hc => isDigit_of_mem_ofNat hc
  have hnodigit : behind.takeWhile Char.isDigit = [] ∧ behind.dropWhile Char.isDigit = behind := by
    cases behind with
    | nil => exact ⟨rfl, rfl⟩
    | cons c tail =>
      have hc := (hbehind c rfl).1
      exact ⟨List.takeWhile_cons_of_neg (by simp [hc]), List.dropWhile_cons_of_neg (by simp [hc])⟩
  have htake : (Text.ofNat n ++ behind).takeWhile Char.isDigit = Text.ofNat n := by
    rw [List.takeWhile_append_of_pos hdigits, hnodigit.1, List.append_nil]
  have hdrop : (Text.ofNat n ++ behind).dropWhile Char.isDigit = behind := by
    rw [List.dropWhile_append_of_pos hdigits, hnodigit.2]
  have hshape : ¬((Text.ofNat n).isEmpty = true
      ∨ (Text.ofNat n).head? = some '0' ∧ 1 < (Text.ofNat n).length) := by
    rintro (hempty | ⟨hzero, hlength⟩)
    · exact Nat.toDigits_ne_nil (List.isEmpty_iff.mp hempty)
    · exact head?_ofNat hlength hzero
  have hparts : Decimal.integerDigits ⟨0, 0⟩ (Text.ofNat n) = ⟨n, 0⟩ := by
    have hall := integerDigits_ofNat h []
    rwa [List.append_nil] at hall
  unfold magnitude?
  simp only [htake, hdrop, if_neg hshape, hparts]
  cases behind with
  | nil => rfl
  | cons c tail =>
    obtain ⟨-, hpoint, he, hE⟩ := hbehind c rfl
    simp [hpoint, he, hE]

theorem number?_renderNumber {value : Int} (hlow : -(twoTo 63 : Int) ≤ value)
    (hhigh : value < (twoTo 64 : Int)) {behind : Text} (hbehind : EndsNumber behind) :
    number? (renderNumber (.integer value) ++ behind) = some (some (.integer value), behind) := by
  have hpowers : twoTo 64 = 2 * twoTo 63 := by decide
  have hfits : value.natAbs < twoTo 64 := by omega
  simp only [renderNumber]
  by_cases hnegative : value < 0
  · have hrange : 0 < value.natAbs ∧ value.natAbs ≤ twoTo 63 := by omega
    have hvalue : -(value.natAbs : Int) = value := by omega
    rw [if_pos hnegative, List.cons_append, number?, magnitude?_ofNat hfits true hbehind]
    simp only [wholeNumber?, Bool.false_eq_true, if_false, Bool.not_true, if_pos hrange, hvalue]
  · have hvalue : (value.natAbs : Int) = value := by omega
    -- a text of digits has no sign in front
    have hsign : ∀ rest, Text.ofNat value.natAbs ++ behind ≠ '-' :: rest := by
      intro rest heq
      obtain ⟨c, digits, hdigits, hc⟩ := exists_ofNat value.natAbs
      rw [hdigits, List.cons_append, List.cons.injEq] at heq
      rw [heq.1] at hc
      exact absurd hc (by decide)
    rw [if_neg hnegative]
    unfold number?
    split
    · next rest heq => exact absurd heq (hsign rest)
    · rw [magnitude?_ofNat hfits false hbehind]
      simp only [wholeNumber?, Bool.false_eq_true, if_false, Bool.not_false, if_true, hvalue]

/-! ## Values that are read back -/

mutual

/-- The numbers in the value are integers of 64 bits, and arrays and objects are at
    most `depth` deep inside one another. -/
def isExact (depth : Nat) : Json → Bool
  | number (.integer value) => -(twoTo 63 : Int) ≤ value && value < (twoTo 64 : Int)
  | number (.double _) => false
  | array items => 0 < depth && areExact (depth - 1) items
  | object entries => 0 < depth && entriesExact (depth - 1) entries
  | null | bool _ | text _ => true

/-- `isExact` for every item of an array. -/
def areExact (depth : Nat) : List Json → Bool
  | [] => true
  | item :: rest => isExact depth item && areExact depth rest

/-- `isExact` for every value of an object. -/
def entriesExact (depth : Nat) : List (Text × Json) → Bool
  | [] => true
  | (_, value) :: rest => isExact depth value && entriesExact depth rest

end

theorem areExact_iff {depth : Nat} {items : List Json} :
    areExact depth items = true ↔ ∀ item ∈ items, item.isExact depth = true := by
  induction items with
  | nil => simp [areExact]
  | cons item rest ih => simp [areExact, ih]

theorem entriesExact_iff {depth : Nat} {entries : List (Text × Json)} :
    entriesExact depth entries = true ↔ ∀ e ∈ entries, e.2.isExact depth = true := by
  induction entries with
  | nil => simp [entriesExact]
  | cons e rest ih => simp [entriesExact, ih]

theorem isExact_record {depth : Nat} {fields : List (String × Json)}
    (h : ∀ f ∈ fields, f.2.isExact depth = true) : (record fields).isExact (depth + 1) = true := by
  have hentries : entriesExact depth (fields.map fun f => (f.1.toList, f.2)) = true := by
    rw [entriesExact_iff]
    intro e he
    obtain ⟨f, hf, rfl⟩ := List.mem_map.mp he
    exact h f hf
  simpa [record, isExact] using hentries

/-! ## Blanks -/

theorem skipBlanks_newline (level : Nat) (t : Text) :
    skipBlanks (newline level ++ t) = skipBlanks t := by
  have hblank : ∀ c ∈ newline level, (c == ' ' || c == '\n' || c == '\t' || c == '\r') = true := by
    intro c hc
    rcases List.mem_cons.mp hc with rfl | hc
    · rfl
    · rw [List.eq_of_mem_replicate hc]
      rfl
  exact List.dropWhile_append_of_pos hblank

theorem skipBlanks_idem (t : Text) : skipBlanks (skipBlanks t) = skipBlanks t :=
  List.dropWhile_idempotent _ t

theorem value?_skipBlanks {α : Type} (form : Form α) (fuel depth : Nat) (t : Text) :
    value? form fuel depth (skipBlanks t) = value? form fuel depth t := by
  cases fuel with
  | zero => rfl
  | succ fuel => rw [value?, value?, skipBlanks_idem]

theorem items?_skipBlanks {α : Type} (form : Form α) (fuel depth : Nat) (t : Text) :
    items? form fuel depth (skipBlanks t) = items? form fuel depth t := by
  cases fuel with
  | zero => rfl
  | succ fuel => rw [items?, items?, value?_skipBlanks]

theorem entries?_skipBlanks {α : Type} (form : Form α) (fuel depth : Nat) (t : Text) :
    entries? form fuel depth (skipBlanks t) = entries? form fuel depth t := by
  cases fuel with
  | zero => rfl
  | succ fuel => rw [entries?, entries?, skipBlanks_idem]

/-! ## Lines -/

/-- The items of an array, each on a line, and its closing bracket. -/
def itemLines (level : Nat) : List Json → Text
  | [] => newline level ++ [']']
  | item :: rest => newline (level + 1) ++ prettyAt (level + 1) item ++ prettyItems level rest

/-- The entries of an object, each on a line, and its closing brace. -/
def entryLines (level : Nat) : List (Text × Json) → Text
  | [] => newline level ++ ['}']
  | (key, value) :: rest =>
    newline (level + 1) ++ quote key ++ ':' :: ' ' :: prettyAt (level + 1) value
      ++ prettyEntries level rest

theorem prettyAt_array_cons (level : Nat) (item : Json) (rest : List Json) :
    prettyAt level (array (item :: rest)) = '[' :: itemLines level (item :: rest) := by
  rw [prettyAt, itemLines]
  simp only [List.cons_append]

theorem prettyAt_object_cons (level : Nat) (entry : Text × Json) (rest : List (Text × Json)) :
    prettyAt level (object (entry :: rest)) = '{' :: entryLines level (entry :: rest) := by
  obtain ⟨key, value⟩ := entry
  rw [prettyAt, entryLines]
  simp only [List.cons_append, List.append_assoc]

theorem prettyItems_cons (level : Nat) (item : Json) (rest : List Json) :
    prettyItems level (item :: rest) = ',' :: itemLines level (item :: rest) := by
  rw [prettyItems, itemLines]
  simp only [List.cons_append]

theorem prettyEntries_cons (level : Nat) (entry : Text × Json) (rest : List (Text × Json)) :
    prettyEntries level (entry :: rest) = ',' :: entryLines level (entry :: rest) := by
  obtain ⟨key, value⟩ := entry
  rw [prettyEntries, entryLines]
  simp only [List.cons_append, List.append_assoc]

theorem endsNumber_newline (level : Nat) (t : Text) : EndsNumber (newline level ++ t) := by
  intro c hc
  obtain rfl : '\n' = c := Option.some.inj hc
  decide

theorem endsNumber_prettyItems (level : Nat) (items : List Json) (behind : Text) :
    EndsNumber (prettyItems level items ++ behind) := by
  cases items with
  | nil =>
    rw [prettyItems, List.append_assoc]
    exact endsNumber_newline level _
  | cons item rest =>
    intro c hc
    rw [prettyItems_cons] at hc
    obtain rfl : ',' = c := Option.some.inj hc
    decide

theorem endsNumber_prettyEntries (level : Nat) (entries : List (Text × Json)) (behind : Text) :
    EndsNumber (prettyEntries level entries ++ behind) := by
  cases entries with
  | nil =>
    rw [prettyEntries, List.append_assoc]
    exact endsNumber_newline level _
  | cons entry rest =>
    intro c hc
    rw [prettyEntries_cons] at hc
    obtain rfl : ',' = c := Option.some.inj hc
    decide

theorem length_le_flatMap_escapeChar (t : Text) : t.length ≤ (t.flatMap escapeChar).length := by
  induction t with
  | nil => exact Nat.le_refl 0
  | cons c t ih =>
    have hc : 1 ≤ (escapeChar c).length := by
      fun_cases escapeChar c <;> simp
    rw [List.flatMap_cons, List.length_append, List.length_cons]
    omega

/-! ## Reading -/

/-- A character that a number begins with. -/
def BeginsNumber (c : Char) : Prop := c.isDigit = true ∨ c = '-'

theorem BeginsNumber.ne {c d : Char} (h : BeginsNumber c) (hdigit : d.isDigit = false)
    (hsign : d ≠ '-') : c ≠ d := by
  rintro rfl
  rcases h with h | h
  · rw [hdigit] at h
    exact Bool.noConfusion h
  · exact hsign h

theorem exists_renderNumber (value : Int) :
    ∃ c t, renderNumber (.integer value) = c :: t ∧ BeginsNumber c := by
  simp only [renderNumber]
  by_cases hnegative : value < 0
  · rw [if_pos hnegative]
    exact ⟨'-', _, rfl, Or.inr rfl⟩
  · obtain ⟨c, t, hdigits, hc⟩ := exists_ofNat value.natAbs
    rw [if_neg hnegative]
    exact ⟨c, t, hdigits, Or.inl hc⟩

theorem skipBlanks_of_beginsNumber {c : Char} (hc : BeginsNumber c) (t : Text) :
    skipBlanks (c :: t) = c :: t := by
  refine List.dropWhile_cons_of_neg ?_
  simp only [Bool.or_eq_true, beq_iff_eq, not_or]
  exact ⟨⟨⟨hc.ne (by decide) (by decide), hc.ne (by decide) (by decide)⟩,
    hc.ne (by decide) (by decide)⟩, hc.ne (by decide) (by decide)⟩

/-- The first character of a printed value is no blank and closes nothing. -/
theorem exists_prettyAt (level : Nat) {depth : Nat} {j : Json} (h : j.isExact depth = true) :
    ∃ c t, prettyAt level j = c :: t ∧ (∀ s, skipBlanks (c :: s) = c :: s) ∧ c ≠ ']' := by
  cases j with
  | null => exact ⟨'n', _, rfl, fun _ => rfl, by decide⟩
  | bool b =>
    cases b with
    | true => exact ⟨'t', _, rfl, fun _ => rfl, by decide⟩
    | false => exact ⟨'f', _, rfl, fun _ => rfl, by decide⟩
  | text t => exact ⟨'"', _, rfl, fun _ => rfl, by decide⟩
  | number value =>
    cases value with
    | double bits => exact absurd h (by simp [isExact])
    | integer value =>
      obtain ⟨c, t, hprinted, hc⟩ := exists_renderNumber value
      refine ⟨c, t, hprinted, ?_, hc.ne (by decide) (by decide)⟩
      exact skipBlanks_of_beginsNumber hc
  | array items =>
    cases items with
    | nil => exact ⟨'[', _, rfl, fun _ => rfl, by decide⟩
    | cons item rest => exact ⟨'[', _, rfl, fun _ => rfl, by decide⟩
  | object entries =>
    cases entries with
    | nil => exact ⟨'{', _, rfl, fun _ => rfl, by decide⟩
    | cons entry rest => exact ⟨'{', _, rfl, fun _ => rfl, by decide⟩

/-- A value that begins like a number is one. -/
theorem value?_of_beginsNumber {c : Char} (hc : BeginsNumber c) (fuel depth : Nat) (t : Text) :
    value? strict (fuel + 1) depth (c :: t)
      = (number? (c :: t)).bind fun p =>
        strict.part (p.1.map fun n => strict.leaf (number n), p.2) := by
  have hskip := skipBlanks_of_beginsNumber hc t
  rw [value?, hskip]
  split
  case h_7 => rfl
  -- every other value begins with another character
  all_goals next heq => exact absurd (List.cons.inj heq).1 (hc.ne (by decide) (by decide))

theorem renderScalar_text (t : Text) : renderScalar (text t) = quote t := rfl

theorem renderScalar_number (n : JsonNumber) : renderScalar (number n) = renderNumber n := rfl

/-- A printed scalar is read back. -/
theorem value?_renderScalar {fuel depth : Nat} {j : Json} {behind : Text}
    (hj : j.isExact depth = true) (hscalar : renderScalar j ≠ [])
    (hfuel : (renderScalar j).length < fuel) (hbehind : EndsNumber behind) :
    value? strict fuel depth (renderScalar j ++ behind) = some (j, behind) := by
  obtain ⟨fuel, rfl⟩ : ∃ n, fuel = n + 1 := ⟨fuel - 1, by omega⟩
  cases j with
  | null => rfl
  | bool b => cases b <;> rfl
  | text t =>
    have hlength : t.length < fuel := by
      have hle := length_le_flatMap_escapeChar t
      simp only [renderScalar_text, quote, List.length_cons, List.length_append] at hfuel
      omega
    have hquoted : renderScalar (text t) ++ behind
        = '"' :: (t.flatMap escapeChar ++ '"' :: behind) := by
      simp [renderScalar_text, quote]
    have hskip : ∀ rest, skipBlanks ('"' :: rest) = '"' :: rest := fun _ => rfl
    rw [hquoted, value?, hskip]
    show Option.bind (stringBody? fuel (some []) (t.flatMap escapeChar ++ '"' :: behind)) _ = _
    rw [stringBody?_quoted t fuel [] behind hlength]
    rfl
  | number value =>
    cases value with
    | double bits => exact absurd hj (by simp [isExact])
    | integer value =>
      simp only [isExact, Bool.and_eq_true, decide_eq_true_eq] at hj
      have hnumber := number?_renderNumber hj.1 hj.2 hbehind
      obtain ⟨c, t, hprinted, hc⟩ := exists_renderNumber value
      rw [renderScalar_number, hprinted, List.cons_append, value?_of_beginsNumber hc]
      rw [hprinted, List.cons_append] at hnumber
      rw [hnumber]
      rfl
  | array items => exact absurd rfl hscalar
  | object entries => exact absurd rfl hscalar

theorem skipBlanks_itemLines (level : Nat) {depth : Nat} {item : Json}
    (hitem : item.isExact depth = true) (rest : List Json) (behind : Text) :
    ∃ c t, skipBlanks (itemLines level (item :: rest) ++ behind) = c :: t ∧ c ≠ ']' := by
  obtain ⟨c, t, hprinted, hskip, hc⟩ := exists_prettyAt (level + 1) hitem
  refine ⟨c, t ++ (prettyItems level rest ++ behind), ?_, hc⟩
  rw [itemLines, hprinted, List.append_assoc, List.append_assoc, skipBlanks_newline]
  exact hskip _

theorem skipBlanks_entryLines (level : Nat) (key : Text) (value : Json)
    (rest : List (Text × Json)) (behind : Text) :
    skipBlanks (entryLines level ((key, value) :: rest) ++ behind)
      = '"' :: (key.flatMap escapeChar ++ '"' :: ':' :: ' ' :: (prettyAt (level + 1) value
        ++ (prettyEntries level rest ++ behind))) := by
  simp only [entryLines, List.append_assoc, skipBlanks_newline, quote, List.cons_append,
    List.nil_append]
  rfl

/-- An array whose first character closes nothing has items. -/
theorem value?_open_bracket {t : Text} {c : Char} {rest : Text} (ht : skipBlanks t = c :: rest)
    (hc : c ≠ ']') (fuel depth : Nat) :
    value? strict (fuel + 1) (depth + 1) ('[' :: t)
      = (items? strict fuel depth t).map fun p => (array p.1, p.2) := by
  have hopen : skipBlanks ('[' :: t) = '[' :: t := rfl
  have hdepth : ¬(decide (depth + 1 = 0) && strict.flawed?.isNone) = true := by simp
  rw [value?, hopen]
  simp only [if_neg hdepth, ht]
  have hitems : items? strict fuel depth (c :: rest) = items? strict fuel depth t := by
    rw [← ht, items?_skipBlanks]
  split
  · next heq => exact absurd (List.cons.inj heq).1 hc
  · rw [Nat.add_sub_cancel, hitems, Option.map_eq_bind]
    rfl

/-- An object whose first character is a quote has entries. -/
theorem value?_open_brace {t rest : Text} (ht : skipBlanks t = '"' :: rest) (fuel depth : Nat) :
    value? strict (fuel + 1) (depth + 1) ('{' :: t)
      = (entries? strict fuel depth t).bind fun p =>
        p.1.map fun entries => (object entries, p.2) := by
  have hopen : skipBlanks ('{' :: t) = '{' :: t := rfl
  have hdepth : ¬(decide (depth + 1 = 0) && strict.flawed?.isNone) = true := by simp
  have hentries : entries? strict fuel depth ('"' :: rest) = entries? strict fuel depth t := by
    rw [← ht, entries?_skipBlanks]
  rw [value?, hopen]
  simp only [if_neg hdepth, ht]
  show Option.bind (entries? strict fuel depth ('"' :: rest)) _ = _
  rw [hentries]
  congr 1
  funext p
  obtain ⟨entries, behind⟩ := p
  cases entries <;> rfl

-- The induction is on the value; what stands behind it is any text.  A step of the
-- reader costs one unit of fuel and takes at least one character.
mutual

theorem value?_prettyAt : ∀ (j : Json) {level fuel depth : Nat} {behind : Text},
    j.isExact depth = true → (prettyAt level j).length < fuel → EndsNumber behind →
      value? strict fuel depth (prettyAt level j ++ behind) = some (j, behind)
  | .array items, level, fuel, depth, behind, hj, hfuel, _ => by
    obtain ⟨fuel, rfl⟩ : ∃ n, fuel = n + 1 := ⟨fuel - 1, by omega⟩
    simp only [isExact, Bool.and_eq_true, decide_eq_true_eq] at hj
    obtain ⟨depth, rfl⟩ : ∃ n, depth = n + 1 := ⟨depth - 1, by omega⟩
    rw [Nat.add_sub_cancel] at hj
    cases items with
    | nil => rfl
    | cons item rest =>
      rw [prettyAt_array_cons] at hfuel ⊢
      simp only [areExact, Bool.and_eq_true] at hj
      obtain ⟨c, t, hfirst, hc⟩ := skipBlanks_itemLines level hj.2.1 rest behind
      rw [List.cons_append, value?_open_bracket hfirst hc,
        items?_itemLines (item :: rest) (by simp) (by simpa [areExact] using hj.2)
          (by simpa using hfuel)]
      rfl
  | .object entries, level, fuel, depth, behind, hj, hfuel, _ => by
    obtain ⟨fuel, rfl⟩ : ∃ n, fuel = n + 1 := ⟨fuel - 1, by omega⟩
    simp only [isExact, Bool.and_eq_true, decide_eq_true_eq] at hj
    obtain ⟨depth, rfl⟩ : ∃ n, depth = n + 1 := ⟨depth - 1, by omega⟩
    rw [Nat.add_sub_cancel] at hj
    cases entries with
    | nil => rfl
    | cons entry rest =>
      obtain ⟨key, value⟩ := entry
      rw [prettyAt_object_cons] at hfuel ⊢
      rw [List.cons_append, value?_open_brace (skipBlanks_entryLines level key value rest behind),
        entries?_entryLines ((key, value) :: rest) (by simp) hj.2 (by simpa using hfuel)]
      rfl
  | .null, _, _, _, _, hj, hfuel, hbehind => value?_renderScalar hj nofun hfuel hbehind
  | .bool b, _, _, _, _, hj, hfuel, hbehind =>
    value?_renderScalar hj (by cases b <;> exact nofun) hfuel hbehind
  | .number (.double _), _, _, _, _, hj, _, _ => absurd hj (by simp [isExact])
  | .number (.integer value), _, _, _, _, hj, hfuel, hbehind => by
    obtain ⟨c, t, hprinted, -⟩ := exists_renderNumber value
    have hscalar : renderScalar (.number (.integer value)) ≠ [] := by
      rw [renderScalar_number, hprinted]
      exact List.cons_ne_nil c t
    exact value?_renderScalar hj hscalar hfuel hbehind
  | .text _, _, _, _, _, hj, hfuel, hbehind => value?_renderScalar hj nofun hfuel hbehind

/-- The items of an array are read back up to its closing bracket. -/
theorem items?_itemLines : ∀ (items : List Json) {level fuel depth : Nat} {behind : Text},
    items ≠ [] → areExact depth items = true → (itemLines level items).length < fuel →
      items? strict fuel depth (itemLines level items ++ behind) = some (items, behind)
  | [], _, _, _, _, hne, _, _ => absurd rfl hne
  | item :: rest, level, fuel, depth, behind, _, hitems, hfuel => by
    obtain ⟨fuel, rfl⟩ : ∃ n, fuel = n + 1 := ⟨fuel - 1, by omega⟩
    simp only [areExact, Bool.and_eq_true] at hitems
    have hlength : (prettyAt (level + 1) item).length < fuel := by
      simp only [itemLines, newline, List.length_append, List.length_cons] at hfuel
      omega
    -- the reader of a value passes over the line break in front of it
    have hitem : value? strict fuel depth (itemLines level (item :: rest) ++ behind)
        = some (item, prettyItems level rest ++ behind) := by
      rw [itemLines, List.append_assoc, List.append_assoc, ← value?_skipBlanks,
        skipBlanks_newline, value?_skipBlanks]
      exact value?_prettyAt item hitems.1 hlength (endsNumber_prettyItems _ _ _)
    rw [items?, hitem]
    cases rest with
    | nil =>
      have hclose : skipBlanks (prettyItems level [] ++ behind) = ']' :: behind := by
        rw [prettyItems, List.append_assoc, skipBlanks_newline]
        rfl
      simp only [hclose]
    | cons next rest =>
      have hcomma : skipBlanks (prettyItems level (next :: rest) ++ behind)
          = ',' :: (itemLines level (next :: rest) ++ behind) := by
        rw [prettyItems_cons]
        rfl
      have hrest : (itemLines level (next :: rest)).length < fuel := by
        rw [itemLines, prettyItems_cons] at hfuel
        simp only [List.length_append, List.length_cons] at hfuel
        omega
      simp only [hcomma]
      rw [items?_itemLines (next :: rest) (by simp) hitems.2 hrest]
      rfl

/-- The entries of an object are read back up to its closing brace. -/
theorem entries?_entryLines : ∀ (entries : List (Text × Json)) {level fuel depth : Nat}
    {behind : Text}, entries ≠ [] → entriesExact depth entries = true →
      (entryLines level entries).length < fuel →
      entries? strict fuel depth (entryLines level entries ++ behind) = some (some entries, behind)
  | [], _, _, _, _, hne, _, _ => absurd rfl hne
  | (key, value) :: rest, level, fuel, depth, behind, _, hentries, hfuel => by
    obtain ⟨fuel, rfl⟩ : ∃ n, fuel = n + 1 := ⟨fuel - 1, by omega⟩
    simp only [entriesExact, Bool.and_eq_true] at hentries
    have hkey := length_le_flatMap_escapeChar key
    have hlength : key.length < fuel ∧ (prettyAt (level + 1) value).length < fuel := by
      simp only [entryLines, newline, quote, List.length_append, List.length_cons] at hfuel
      omega
    have hfirst := skipBlanks_entryLines level key value rest behind
    have hcolon : ∀ t, skipBlanks (':' :: t) = ':' :: t := fun _ => rfl
    have hvalue : value? strict fuel depth
        (' ' :: (prettyAt (level + 1) value ++ (prettyEntries level rest ++ behind)))
        = some (value, prettyEntries level rest ++ behind) := by
      have hspace : ∀ t, skipBlanks (' ' :: t) = skipBlanks t := fun _ => rfl
      rw [← value?_skipBlanks, hspace, value?_skipBlanks]
      exact value?_prettyAt value hentries.1 hlength.2 (endsNumber_prettyEntries _ _ _)
    rw [entries?, hfirst]
    simp only [stringBody?_quoted key fuel [] _ hlength.1, hcolon, hvalue]
    cases rest with
    | nil =>
      have hclose : skipBlanks (prettyEntries level [] ++ behind) = '}' :: behind := by
        rw [prettyEntries, List.append_assoc, skipBlanks_newline]
        rfl
      simp only [hclose]
      rfl
    | cons next rest =>
      have hcomma : skipBlanks (prettyEntries level (next :: rest) ++ behind)
          = ',' :: (entryLines level (next :: rest) ++ behind) := by
        rw [prettyEntries_cons]
        rfl
      have hrest : (entryLines level (next :: rest)).length < fuel := by
        rw [entryLines, prettyEntries_cons] at hfuel
        simp only [List.length_append, List.length_cons] at hfuel
        omega
      simp only [hcomma]
      rw [entries?_entryLines (next :: rest) (by simp) hentries.2 hrest]
      rfl

end

/-- A printed value is read back. -/
theorem parse?_pretty {j : Json} (h : j.isExact maxDepth = true) (level : Nat) :
    parse? (prettyAt level j ++ ['\n']) = some j := by
  have hends : EndsNumber ['\n'] := endsNumber_newline 0 []
  have hread : value? strict ((prettyAt level j ++ ['\n']).length + 1) maxDepth
      (prettyAt level j ++ ['\n']) = some (j, ['\n']) := by
    refine value?_prettyAt j h ?_ hends
    rw [List.length_append]
    omega
  rw [parse?, read?, hread]
  rfl

end ClassLint.Json
