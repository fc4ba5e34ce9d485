/-
  ClassLint.Proofs.Finding.Precedence

  What a check finds, in the order in which it looks: whether the base is
  ignored, whether it is an empty arbitrary value, whether it may stand behind
  the variants that are there, and only then whether the token is valid.

  A registry looks at a token as a whole first, a check takes it apart first.
  So a valid token is reported nonetheless if its base is an empty arbitrary
  value, or if it has variants, perhaps within a name that a list spells out,
  and the base is no utility.  It passes if it has no variants, or if its base
  is a utility and not left to the stylesheets.
-/

import ClassLint.Proofs.Finding.Exactness
import ClassLint.Registry.Sources

namespace ClassLint.Registry

variable {r : Registry} {ignore : List NamePattern} {token : Text}

/-! ## Bases -/

theorem isValid_of_isUtility (hr : r.IsUnion) {name : Text} (h : r.isUtility name = true) :
    r.isValid name = true := by
  simp only [isUtility, Bool.and_eq_true] at h
  obtain ⟨hblocked, hutility⟩ := h
  have hlisted : r.isListed name = true := by
    rw [isListed, hr]
    simp only [Bool.or_eq_true] at hutility ⊢
    exact hutility.imp_left (Or.imp_left Or.inr)
  simp [isValid, hblocked, hlisted]

/-- A base may stand behind variants if it is valid and no stylesheet's own. -/
theorem isUtilityOnly_base (hr : r.IsUnion) (token : Text) :
    r.isUtilityOnly (Token.parse token).base = true ↔
      r.isValid (Token.parse token).base = true ∧ r.isCss (Token.parse token).base = false := by
  simp only [isUtilityOnly, Bool.and_eq_true, Bool.not_eq_true']
  constructor
  · rintro ⟨hcss, hutility⟩
    exact ⟨isValid_of_isUtility hr hutility, hcss⟩
  · rintro ⟨hvalid, hcss⟩
    exact ⟨hcss, isUtility_of_isValid_base hr hvalid hcss⟩

/-! ## The ways through a check -/

theorem check_of_ignored
    (hignored : NamePattern.anyAccepts ignore (Token.parse token).base = true) :
    r.check ignore token = none := by
  simp [check, checkParsed, hignored]

theorem check_of_isEmpty
    (hignored : NamePattern.anyAccepts ignore (Token.parse token).base = false)
    (hempty : Arbitrary.isEmpty (Token.parse token).base = true) :
    r.check ignore token = some (.invalidClass (Token.parse token).base) := by
  simp [check, checkParsed, hignored, hempty]

theorem check_of_variants_ne_nil
    (hignored : NamePattern.anyAccepts ignore (Token.parse token).base = false)
    (hempty : Arbitrary.isEmpty (Token.parse token).base = false)
    (hvariants : (Token.parse token).variants ≠ []) :
    r.check ignore token = r.checkCompound token (Token.parse token) := by
  simp [check, checkParsed, hignored, hempty, hvariants]

/-- Behind variants a base that is not left to utilities is reported. -/
theorem check_of_not_isUtilityOnly (hr : r.IsUnion)
    (hignored : NamePattern.anyAccepts ignore (Token.parse token).base = false)
    (hvariants : (Token.parse token).variants ≠ [])
    (honly : r.isUtilityOnly (Token.parse token).base = false) :
    r.check ignore token = some (.invalidClass (Token.parse token).base) := by
  have hhas : (Token.parse token).hasVariants = true := by simp [hvariants]
  have hbase : (!r.isValid (Token.parse token).base || r.isCss (Token.parse token).base) = true := by
    rw [← Bool.not_eq_true, isUtilityOnly_base hr] at honly
    cases hvalid : r.isValid (Token.parse token).base with
    | false => rfl
    | true => simpa [hvalid] using honly
  unfold check checkParsed checkCompound
  rw [hignored, hhas, hbase]
  -- an empty arbitrary value is reported in the same words
  cases Arbitrary.isEmpty (Token.parse token).base <;> rfl

/-- A token whose base is not ignored passes if it is valid, its base is no empty
    arbitrary value, and variants stand in front of utilities only. -/
theorem check_eq_none_of_not_ignored_iff (hr : r.IsUnion)
    (hignored : NamePattern.anyAccepts ignore (Token.parse token).base = false) :
    r.check ignore token = none ↔
      Arbitrary.isEmpty (Token.parse token).base = false ∧ r.isValid token = true
        ∧ ((Token.parse token).variants = [] ∨ r.isUtilityOnly (Token.parse token).base = true) := by
  cases hempty : Arbitrary.isEmpty (Token.parse token).base with
  | true => simp [check_of_isEmpty hignored hempty]
  | false =>
    by_cases hvariants : (Token.parse token).variants = []
    · have hplain : r.check ignore token = none ↔ r.isValid token = true :=
        checkParsed_of_variants_nil hignored hempty hvariants
      simp [hplain, hvariants]
    · rw [check_of_variants_ne_nil hignored hempty hvariants, checkCompound_eq_none_iff hr,
        ← isUtilityOnly_base hr]
      simp [hvariants]

/-! ## Valid tokens -/

/-- **Which valid tokens pass a check, and which are reported.**  A valid token
    passes if its base is ignored, and also if the base is no empty arbitrary
    value and there are no variants or the base is a utility and not left to the
    stylesheets.  If the base is not ignored, it is reported where it is an
    empty arbitrary value, and behind variants where it is no utility.  A base
    behind variants that is a utility and a stylesheet's own at once is left open. -/
theorem check_of_isValid (key? : Option Digest) (sources : RegistrySources)
    (ignore : List NamePattern) (token : Text)
    (hvalid : (ofSources key? sources).isValid token = true) :
    let r := ofSources key? sources
    let parsed := Token.parse token
    (NamePattern.anyAccepts ignore parsed.base = true → r.check ignore token = none)
    ∧ (Arbitrary.isEmpty parsed.base = false →
        parsed.variants = [] ∨ r.isUtilityOnly parsed.base = true →
        r.check ignore token = none)
    ∧ (NamePattern.anyAccepts ignore parsed.base = false →
        Arbitrary.isEmpty parsed.base = true
          ∨ (parsed.variants ≠ [] ∧ r.isUtility parsed.base = false) →
        r.check ignore token = some (.invalidClass parsed.base)) := by
  intro r parsed
  have hr : r.IsUnion := isUnion_ofSources key? sources
  refine ⟨check_of_ignored, ?_, ?_⟩
  · intro hempty hbase
    cases hignored : NamePattern.anyAccepts ignore parsed.base with
    | true => exact check_of_ignored hignored
    | false => exact (check_eq_none_of_not_ignored_iff hr hignored).mpr ⟨hempty, hvalid, hbase⟩
  · rintro hignored (hempty | ⟨hvariants, hutility⟩)
    · exact check_of_isEmpty hignored hempty
    · have honly : r.isUtilityOnly parsed.base = false := by simp [isUtilityOnly, hutility]
      exact check_of_not_isUtilityOnly hr hignored hvariants honly

/-- A catalogue of one utility and one variant, beside a stylesheet's name. -/
def flexible : RegistrySources where
  stylesheets := [(.ofString "a.css", OrderedSet.ofList ["card".toList])]
  catalogue? := some ⟨OrderedSet.ofList ["flex".toList], OrderedSet.ofList ["hover".toList]⟩
  allowlist := []
  blocklist := []
  ignore := []

theorem check_of_isValid_flexible :
    (ofSources none flexible).isValid "hover:[&>*]:flex".toList = true
      ∧ (ofSources none flexible).check [] "hover:[&>*]:flex".toList = none := by
  have hvalid : (ofSources none flexible).isValid "hover:[&>*]:flex".toList = true := by
    decide +kernel
  have hpasses := (check_of_isValid none flexible [] "hover:[&>*]:flex".toList hvalid).2.1
  exact ⟨hvalid, hpasses (by decide +kernel) (Or.inr (by decide +kernel))⟩

/-- A request for no more than two names that an allow list spells out. -/
def spelledOut : RegistryRequest where
  files := []
  settings? := none
  allowlist := ["w-[]".toList, "a:b".toList]
  blocklist := []
  ignore := []
  cwd := .ofString "."

/-- Both names are valid, and both are reported. -/
theorem check_spelledOut_ne_none :
    let r := spelledOut.build .design (.ofWorkingDirectory [] 0) none
    (r.isValid "w-[]".toList = true
        ∧ r.check [] "w-[]".toList = some (.invalidClass "w-[]".toList))
      ∧ r.isValid "a:b".toList = true
        ∧ r.check [] "a:b".toList = some (.invalidClass "b".toList) := by
  decide +kernel

end ClassLint.Registry
