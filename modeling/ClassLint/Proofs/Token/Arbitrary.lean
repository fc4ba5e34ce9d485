/-
  ClassLint.Proofs.Token.Arbitrary

  Which bases are arbitrary values.  A base splits into a utility and a value at
  its last `-[`; the value's brackets balance, and so the bracket at the end is
  the one that closes it.  The shape looks at the base from the other side: a
  name, its last hyphen and a bracket up to the end.

  The two may cut a base at different places.  They cut at the same place where
  the utility is a listed one, since its name has no bracket in it; all that the
  shape adds then is that the base is a single line.
-/

import Mathlib.Data.List.Basic
import Mathlib.Data.List.TakeWhile
import ClassLint.Proofs.Token.Brackets
import ClassLint.Token.Arbitrary

namespace ClassLint

/-- Trimming leaves something unless there are blanks only. -/
theorem Text.trim_eq_nil_iff {t : Text} : trim t = [] ↔ ∀ c ∈ t, isBlank c = true := by
  unfold trim
  rw [List.reverse_eq_nil_iff, List.dropWhile_eq_nil_iff]
  constructor
  · intro h
    have hdropped : t.dropWhile isBlank = [] := by
      rw [List.dropWhile_eq_nil_iff]
      intro c hc
      rw [← List.takeWhile_append_dropWhile (p := isBlank) (l := t)] at hc
      rcases List.mem_append.mp hc with hc | hc
      · exact List.mem_takeWhile_imp hc
      · exact h c (List.mem_reverse.mpr hc)
    exact List.dropWhile_eq_nil_iff.mp hdropped
  · intro h c hc
    exact h c ((List.dropWhile_sublist isBlank).subset (List.mem_reverse.mp hc))

namespace Arbitrary

/-! ## The split -/

/-- The base is written as the utility with the value in brackets, both not empty;
    the value opens no further one, and its own brackets balance. -/
structure Splits (base : Text) (a : Arbitrary) : Prop where
  written : base = a.utility ++ '-' :: '[' :: (a.value ++ [']'])
  utility_ne_nil : a.utility ≠ []
  value_ne_nil : a.value ≠ []
  last : ¬ ['-', '['] <:+: a.value
  balanced : Token.Balances 0 a.value

theorem opens_iff {c : Char} {rest : Text} :
    ['-', '['] <+: c :: rest ↔ c = '-' ∧ ∃ behind, rest = '[' :: behind := by
  rw [List.cons_prefix_cons, eq_comm]
  refine and_congr_right fun _ => ?_
  constructor
  · rintro ⟨behind, rfl⟩
    exact ⟨behind, rfl⟩
  · rintro ⟨behind, rfl⟩
    exact ⟨behind, rfl⟩

theorem isPrefixOf?_bracket {rest behind : Text} :
    ['['].isPrefixOf? rest = some behind ↔ rest = '[' :: behind := by
  rw [List.isPrefixOf?_eq_some_iff_append_eq, eq_comm, List.singleton_append]

theorem lastOpening?_eq_none_iff {t : Text} : lastOpening? t = none ↔ ¬ ['-', '['] <:+: t := by
  induction t with
  | nil => simp [lastOpening?]
  | cons c rest ih =>
    rw [List.infix_cons_iff, opens_iff, lastOpening?]
    cases hrest : lastOpening? rest with
    | some p =>
      have hwithin : ['-', '['] <:+: rest := by
        by_contra hnot
        rw [ih.mpr hnot] at hrest
        exact absurd hrest nofun
      simp [hwithin]
    | none =>
      have hnot := ih.mp hrest
      have hopens : ['['].isPrefixOf? rest = none ↔ ¬ ∃ behind, rest = '[' :: behind := by
        simp only [Option.eq_none_iff_forall_ne_some, ne_eq, isPrefixOf?_bracket, not_exists]
      by_cases hc : c = '-'
      · rw [if_pos hc, Option.map_eq_none_iff, hopens]
        simp [hc, hnot]
      · simp [hc, hnot]

/-- The split is at the last `-[`: none follows. -/
theorem lastOpening?_eq_some_iff {t before behind : Text} :
    lastOpening? t = some (before, behind) ↔
      t = before ++ '-' :: '[' :: behind ∧ ¬ ['-', '['] <:+: behind := by
  induction t generalizing before with
  | nil => simp [lastOpening?]
  | cons c rest ih =>
    rw [lastOpening?]
    cases hrest : lastOpening? rest with
    | some p =>
      obtain ⟨front, back⟩ := p
      simp only [Option.some.injEq, Prod.mk.injEq]
      constructor
      · rintro ⟨rfl, rfl⟩
        obtain ⟨rfl, hlast⟩ := ih.mp hrest
        exact ⟨rfl, hlast⟩
      · rintro ⟨htext, hlast⟩
        cases before with
        | nil =>
          -- the `-[` at the front would be the last one
          obtain ⟨rfl, rfl⟩ := List.cons.inj htext
          have hnone : lastOpening? ('[' :: behind) = none := by
            rw [lastOpening?_eq_none_iff, List.infix_cons_iff, opens_iff]
            rintro (⟨hc, -⟩ | hwithin)
            · exact absurd hc (by decide)
            · exact hlast hwithin
          rw [hnone] at hrest
          exact absurd hrest nofun
        | cons d before =>
          obtain ⟨rfl, rfl⟩ := List.cons.inj htext
          have hsplit := ih.mpr ⟨rfl, hlast⟩
          rw [hrest, Option.some.injEq, Prod.mk.injEq] at hsplit
          exact ⟨congrArg _ hsplit.1, hsplit.2⟩
    | none =>
      have hnot := lastOpening?_eq_none_iff.mp hrest
      constructor
      · intro h
        dsimp only at h
        split at h
        · next hc =>
          obtain ⟨tail, htail, hpair⟩ := Option.map_eq_some_iff.mp h
          obtain ⟨rfl, rfl⟩ := Prod.mk.inj hpair
          rw [isPrefixOf?_bracket.mp htail] at hnot ⊢
          rw [hc]
          exact ⟨rfl, fun hwithin => hnot (List.infix_cons_iff.mpr (Or.inr hwithin))⟩
        · exact absurd h nofun
      · rintro ⟨htext, hlast⟩
        cases before with
        | nil =>
          obtain ⟨rfl, rfl⟩ := List.cons.inj htext
          rfl
        | cons d before =>
          obtain ⟨rfl, rfl⟩ := List.cons.inj htext
          exact absurd ⟨before, behind, by simp⟩ hnot

theorem isBalanced_iff {depth : Nat} {t : Text} :
    isBalanced depth t = true ↔ Token.Balances depth t := by
  induction t generalizing depth with
  | nil => rw [isBalanced, beq_iff_eq, Token.balances_nil]
  | cons c rest ih =>
    unfold isBalanced
    by_cases hopen : c = '['
    · rw [if_pos hopen, ih, hopen, Token.balances_open]
    · rw [if_neg hopen]
      by_cases hclose : c = ']'
      · rw [if_pos hclose, hclose, Token.balances_close]
        cases depth with
        | zero => simp
        | succ d => simp [ih]
      · rw [if_neg hclose, ih, Token.balances_other hopen hclose]

/-- In front of a closing bracket there are as many `-[` as in front of the end. -/
theorem opening_infix_close_iff {value : Text} :
    ['-', '['] <:+: value ++ [']'] ↔ ['-', '['] <:+: value := by
  have hsuffix : ¬ ['-', '['] <:+ value ++ [']'] := by
    rintro ⟨front, hfront⟩
    have hlast := congrArg List.getLast? hfront
    simp at hlast
  rw [List.infix_concat_iff]
  exact or_iff_right hsuffix

/-- What ends with a closing bracket has it behind the last `-[`. -/
theorem getLast?_eq_close_iff {utility behind : Text} :
    (utility ++ '-' :: '[' :: behind).getLast? = some ']' ↔ ∃ value, behind = value ++ [']'] := by
  rw [← List.getLast?_eq_some_iff]
  cases behind with
  | nil => simp
  | cons c behind => simp [List.getLast?_cons]

/-- What is read behind the last `-[`. -/
theorem parse?_of_lastOpening {base utility value : Text}
    (hlast : lastOpening? base = some (utility, value ++ [']'])) :
    parse? base = if utility.isEmpty || value.isEmpty || !isBalanced 0 value then none
      else some ⟨utility, value⟩ := by
  have hclose : base.getLast? = some ']' := by
    rw [(lastOpening?_eq_some_iff.mp hlast).1]
    exact getLast?_eq_close_iff.mpr ⟨value, rfl⟩
  rw [parse?, hlast]
  simp only [hclose, if_true, List.dropLast_concat]

/-- A base is read as the utility and the value into which it splits. -/
theorem parse?_eq_some_iff {base : Text} {a : Arbitrary} :
    parse? base = some a ↔ Splits base a := by
  constructor
  · intro h
    cases hlast : lastOpening? base with
    | none =>
      rw [parse?, hlast] at h
      exact absurd h nofun
    | some p =>
      obtain ⟨utility, behind⟩ := p
      obtain ⟨hbase, hwithin⟩ := lastOpening?_eq_some_iff.mp hlast
      -- nothing is read that does not end with a bracket, so one stands behind the value
      have hclose : base.getLast? = some ']' := by
        by_contra hother
        simp [parse?, hlast, hother] at h
      rw [hbase] at hclose
      obtain ⟨value, rfl⟩ := getLast?_eq_close_iff.mp hclose
      rw [parse?_of_lastOpening hlast, Option.ite_none_left_eq_some] at h
      obtain ⟨hparts, ha⟩ := h
      obtain rfl := Option.some.inj ha
      simp only [Bool.or_eq_true, not_or, List.isEmpty_iff, Bool.not_eq_true', Bool.not_eq_false,
        isBalanced_iff] at hparts
      exact ⟨hbase, hparts.1.1, hparts.1.2, opening_infix_close_iff.not.mp hwithin, hparts.2⟩
  · rintro ⟨hwritten, hutility, hvalue, hlast, hbalanced⟩
    have hsplit : lastOpening? base = some (a.utility, a.value ++ [']']) :=
      lastOpening?_eq_some_iff.mpr ⟨hwritten, opening_infix_close_iff.not.mpr hlast⟩
    rw [parse?_of_lastOpening hsplit]
    simp [hutility, hvalue, isBalanced_iff.mpr hbalanced]

/-! ## The shape -/

/-- The bracket of the shape stands behind a name and a hyphen. -/
theorem afterOpening?_eq_some_iff {base body : Text} :
    afterOpening? base = some body ↔
      ∃ name, base = name ++ '-' :: '[' :: body ∧ name ≠ []
        ∧ ∀ c ∈ name, Text.isNameChar c = true := by
  constructor
  · intro h
    unfold afterOpening? at h
    dsimp only at h
    split at h
    · next rest hbehind =>
      rw [Option.ite_none_right_eq_some, Bool.and_eq_true, decide_eq_true_eq, beq_iff_eq] at h
      obtain ⟨⟨hlength, hhyphen⟩, hrest⟩ := h
      obtain rfl := Option.some.inj hrest
      obtain ⟨name, hname⟩ := List.getLast?_eq_some_iff.mp hhyphen
      have hall : ∀ c ∈ name ++ ['-'], Text.isNameChar c = true :=
        fun c hc => List.mem_takeWhile_imp (hname ▸ hc)
      refine ⟨name, ?_, ?_, fun c hc => hall c (List.mem_append_left _ hc)⟩
      · rw [← List.takeWhile_append_dropWhile (p := Text.isNameChar) (l := base), hname, hbehind]
        simp
      · rintro rfl
        simp [hname] at hlength
    · exact absurd h nofun
  · rintro ⟨name, rfl, hne, hname⟩
    have hall : ∀ c ∈ name ++ ['-'], Text.isNameChar c = true := by
      intro c hc
      rcases List.mem_append.mp hc with hc | hc
      · exact hname c hc
      · rw [List.mem_singleton.mp hc]
        decide
    have hbase : name ++ '-' :: '[' :: body = (name ++ ['-']) ++ '[' :: body := by simp
    have hbracket : Text.isNameChar '[' = false := by decide
    have hfront : ((name ++ ['-']) ++ '[' :: body).takeWhile Text.isNameChar = name ++ ['-'] := by
      rw [List.takeWhile_append_of_pos hall]
      simp [hbracket]
    have hbehind : ((name ++ ['-']) ++ '[' :: body).dropWhile Text.isNameChar = '[' :: body := by
      rw [List.dropWhile_append_of_pos hall]
      simp [hbracket]
    have hlength : 0 < name.length := List.length_pos_iff.mpr hne
    rw [hbase, afterOpening?, hfront, hbehind]
    simp
    omega

/-- A base has the shape if it is a name, a hyphen and a bracket around some text,
    which ends no line. -/
theorem hasShape_iff {base : Text} :
    hasShape base = true ↔
      ∃ name body, base = name ++ '-' :: '[' :: (body ++ [']']) ∧ name ≠ [] ∧ body ≠ []
        ∧ (∀ c ∈ name, Text.isNameChar c = true) ∧ '\n' ∉ body := by
  have hbody : ∀ bracket : Text,
      (2 ≤ bracket.length && bracket.getLast? == some ']' && !bracket.contains '\n') = true ↔
        ∃ body, bracket = body ++ [']'] ∧ body ≠ [] ∧ '\n' ∉ body := by
    intro bracket
    rw [Bool.and_eq_true, Bool.and_eq_true, decide_eq_true_eq, beq_iff_eq, List.getLast?_eq_some_iff]
    constructor
    · rintro ⟨⟨hlength, body, rfl⟩, hline⟩
      refine ⟨body, rfl, ?_, by simpa using hline⟩
      rintro rfl
      simp at hlength
    · rintro ⟨body, rfl, hne, hline⟩
      have hlength : 0 < body.length := List.length_pos_iff.mpr hne
      refine ⟨⟨?_, body, rfl⟩, by simpa using hline⟩
      rw [List.length_append, List.length_singleton]
      omega
  unfold hasShape
  constructor
  · intro h
    split at h
    · next bracket hopening =>
      obtain ⟨name, rfl, hne, hname⟩ := afterOpening?_eq_some_iff.mp hopening
      obtain ⟨body, rfl, hbodyne, hline⟩ := (hbody bracket).mp h
      exact ⟨name, body, rfl, hne, hbodyne, hname, hline⟩
    · exact absurd h nofun
  · rintro ⟨name, body, hbase, hne, hbodyne, hname, hline⟩
    rw [afterOpening?_eq_some_iff.mpr ⟨name, hbase, hne, hname⟩]
    exact (hbody _).mpr ⟨body, rfl, hbodyne, hline⟩

/-- A base of the shape is a single line. -/
theorem newline_not_mem_of_hasShape {base : Text} (h : hasShape base = true) : '\n' ∉ base := by
  obtain ⟨name, body, rfl, -, -, hname, hline⟩ := hasShape_iff.mp h
  have hnewline : '\n' ∉ name := fun hmem => absurd (hname _ hmem) (by decide)
  simp [hnewline, hline]

/-- A base has an empty value if nothing stands between its brackets. -/
theorem isEmpty_iff {base : Text} :
    isEmpty base = true ↔
      ∃ name, base = name ++ "-[]".toList ∧ name ≠ [] ∧ ∀ c ∈ name, Text.isNameChar c = true := by
  rw [isEmpty, beq_iff_eq, afterOpening?_eq_some_iff]
  rfl

/-! ## Listed utilities -/

/-- The utility takes a value: it is listed, or it is a listed one behind a hyphen. -/
def Takes (utility : Text) : Prop :=
  utility ∈ utilities ∨ ∃ positive ∈ utilities, utility = '-' :: positive

/-- Listed utilities are names, and none of them starts with a hyphen. -/
theorem utilities_names :
    ∀ u ∈ utilities, (∀ c ∈ u, Text.isNameChar c = true) ∧ u ≠ [] ∧ u.head? ≠ some '-' := by
  have hall : (utilities.all fun u =>
      u.all Text.isNameChar && !u.isEmpty && u.head? != some '-') = true := by decide +kernel
  intro u hu
  have hname := List.all_eq_true.mp hall u hu
  simp only [Bool.and_eq_true, List.all_eq_true, Bool.not_eq_true', List.isEmpty_eq_false_iff,
    bne_iff_ne] at hname
  exact ⟨hname.1.1, hname.1.2, hname.2⟩

theorem acceptsUtility_iff {utility : Text} : acceptsUtility utility = true ↔ Takes utility := by
  unfold acceptsUtility Takes
  rw [List.contains_iff_mem]
  cases hhyphen : ['-'].isPrefixOf? utility with
  | some positive =>
    -- a utility with a hyphen in front is not listed itself
    obtain rfl : '-' :: positive = utility := List.isPrefixOf?_eq_some_iff_append_eq.mp hhyphen
    have hnot : '-' :: positive ∉ utilities := fun hmem => (utilities_names _ hmem).2.2 rfl
    simp [hnot]
  | none =>
    have hnot : ∀ positive, utility ≠ '-' :: positive := by
      rintro positive rfl
      have hsome : ['-'].isPrefixOf? ('-' :: positive) = some positive :=
        List.isPrefixOf?_eq_some_iff_append_eq.mpr rfl
      rw [hsome] at hhyphen
      exact absurd hhyphen nofun
    simp [hnot]

/-- A utility that takes a value is a name. -/
theorem Takes.names {utility : Text} (h : Takes utility) :
    utility ≠ [] ∧ ∀ c ∈ utility, Text.isNameChar c = true := by
  rcases h with hmem | ⟨positive, hmem, rfl⟩
  · exact ⟨(utilities_names _ hmem).2.1, (utilities_names _ hmem).1⟩
  · refine ⟨List.cons_ne_nil _ _, ?_⟩
    intro c hc
    rcases List.mem_cons.mp hc with rfl | hc
    · decide
    · exact (utilities_names _ hmem).1 c hc

/-! ## Validity -/

theorem isValid_iff {base : Text} :
    isValid base = true ↔
      ∃ a, Splits base a ∧ Takes a.utility ∧ (∃ c ∈ a.value, Text.isBlank c = false)
        ∧ '\n' ∉ a.value := by
  have htrim : ∀ value, (!(Text.trim value).isEmpty) = true ↔
      ∃ c ∈ value, Text.isBlank c = false := by
    intro value
    rw [Bool.not_eq_true', List.isEmpty_eq_false_iff, ne_eq, Text.trim_eq_nil_iff]
    simp
  unfold isValid
  rw [Bool.and_eq_true]
  constructor
  · rintro ⟨hshape, h⟩
    split at h
    · next a hparse =>
      rw [Bool.and_eq_true, acceptsUtility_iff, htrim] at h
      have hsplits := parse?_eq_some_iff.mp hparse
      refine ⟨a, hsplits, h.1, h.2, ?_⟩
      -- the value is part of a single line
      have hline := newline_not_mem_of_hasShape hshape
      rw [hsplits.written] at hline
      simp at hline
      exact hline.2
    · exact absurd h nofun
  · rintro ⟨a, hsplits, htakes, hblank, hline⟩
    -- the utility is a name, so that the shape may cut where the split does
    have hshape : hasShape base = true := hasShape_iff.mpr
      ⟨a.utility, a.value, hsplits.written, htakes.names.1, hsplits.value_ne_nil,
        htakes.names.2, hline⟩
    rw [parse?_eq_some_iff.mpr hsplits]
    exact ⟨hshape, by rw [Bool.and_eq_true, acceptsUtility_iff, htrim]; exact ⟨htakes, hblank⟩⟩

/-- What ends with empty brackets has no value behind its last `-[`. -/
theorem isValid_empty (name : Text) : isValid (name ++ "-[]".toList) = false := by
  have hlast : lastOpening? (name ++ "-[]".toList) = some (name, [] ++ [']']) :=
    lastOpening?_eq_some_iff.mpr ⟨rfl, by decide⟩
  have hparse : parse? (name ++ "-[]".toList) = none := by
    rw [parse?_of_lastOpening hlast]
    simp
  rw [isValid, hparse, Bool.and_false]

/-- **Arbitrary values are recognised exactly.**  A base is read as a utility and a
    value exactly if it splits into these: it is the utility, `-[`, the value and
    `]`, with neither of them empty, no `-[` in the value and its brackets
    balanced.  It is valid exactly if moreover the utility is listed, one hyphen in
    front apart, and the value is a single line that is not all blank.  So no base
    with an empty value is valid. -/
theorem recognised_iff (base : Text) :
    (∀ a, parse? base = some a ↔ Splits base a)
    ∧ (isValid base = true ↔ ∃ a, Splits base a ∧ Takes a.utility
        ∧ (∃ c ∈ a.value, Text.isBlank c = false) ∧ '\n' ∉ a.value)
    ∧ (isEmpty base = true → isValid base = false) := by
  refine ⟨fun a => parse?_eq_some_iff, isValid_iff, ?_⟩
  intro hempty
  obtain ⟨name, rfl, -⟩ := isEmpty_iff.mp hempty
  exact isValid_empty name

-- The shape cuts at the first bracket and the split at the last `-[`; no utility is called `w-[a]`.
example : hasShape "w-[a]-[b]".toList = true
    ∧ parse? "w-[a]-[b]".toList = some ⟨"w-[a]".toList, "b".toList⟩
    ∧ isValid "w-[a]-[b]".toList = false := by
  decide +kernel

end Arbitrary

end ClassLint
