/-
  ClassLint.Proofs.Finding.Blame

  What a finding says is so.  A class is named if it is the base of the token and
  has an empty value, or is not valid, or is left to the stylesheets and stands
  behind variants.  A variant is named if the base is a utility and the token is
  not valid as a whole, and then the variant is the first that is not accepted.

  The first variant is also named where all of them are accepted.  Accepted
  variants before a utility make a compound, and a compound is valid unless it
  is blocked.  So this happens to blocked tokens and to no others.
-/

import ClassLint.Proofs.Finding.Precedence
import ClassLint.Proofs.Registry.Answers

namespace ClassLint

/-! ## Variants -/

/-- All variants in front of this one are accepted, and this one is not. -/
def Variant.IsFirstRejected (known : OrderedSet Text) (variants : List Text) (v : Text) : Prop :=
  ∃ before after, variants = before ++ v :: after
    ∧ (∀ w ∈ before, accepts known w = true) ∧ accepts known v = false

theorem Variant.firstRejected?_eq_some_iff {known : OrderedSet Text} {variants : List Text}
    {v : Text} : firstRejected? known variants = some v ↔ IsFirstRejected known variants v := by
  unfold firstRejected? IsFirstRejected
  rw [List.find?_eq_some_iff_append]
  simp only [Bool.not_eq_true', Bool.not_not]
  constructor
  · rintro ⟨hrejected, before, after, hvariants, haccepted⟩
    exact ⟨before, after, hvariants, haccepted, hrejected⟩
  · rintro ⟨before, after, hvariants, haccepted, hrejected⟩
    exact ⟨hrejected, before, after, hvariants, haccepted⟩

namespace Registry

variable {r : Registry} {ignore : List NamePattern} {token : Text}

/-- Accepted variants before a utility make a valid token unless it is blocked. -/
theorem isValid_of_accepted (hvariants : (Token.parse token).variants ≠ [])
    (haccepted : ∀ v ∈ (Token.parse token).variants, Variant.accepts r.variants v = true)
    (hutility : r.isUtility (Token.parse token).base = true) :
    r.isValid token = !r.isBlocked token := by
  have hcompound : r.isCompound token = true := by
    simp only [isCompound, Bool.and_eq_true, Token.hasVariants_iff, Option.isNone_iff_eq_none,
      Variant.firstRejected?_eq_none_iff]
    exact ⟨⟨hvariants, haccepted⟩, hutility⟩
  rw [isValid, hcompound, Bool.or_true, Bool.and_true]

/-- The variant that a finding names: the first that is not accepted, or the first of
    all where the token is blocked. -/
def Blames (r : Registry) (token v : Text) : Prop :=
  Variant.IsFirstRejected r.variants (Token.parse token).variants v
    ∨ ((∀ w ∈ (Token.parse token).variants, Variant.accepts r.variants w = true)
      ∧ r.isBlocked token = true ∧ (Token.parse token).variants.head? = some v)

/-- A finding names a variant that is to blame. -/
theorem blames_iff (hvariants : (Token.parse token).variants ≠ [])
    (hutility : r.isUtility (Token.parse token).base = true) (hvalid : r.isValid token = false)
    {v : Text} :
    r.Blames token v ↔
      (Variant.firstRejected? r.variants (Token.parse token).variants).getD
        ((Token.parse token).variants.headD []) = v := by
  have hrejects : ∀ {w}, Variant.IsFirstRejected r.variants (Token.parse token).variants w ↔
      Variant.firstRejected? r.variants (Token.parse token).variants = some w :=
    Variant.firstRejected?_eq_some_iff.symm
  unfold Blames
  rw [hrejects, ← Variant.firstRejected?_eq_none_iff]
  cases hrejected : Variant.firstRejected? r.variants (Token.parse token).variants with
  | some w => simp
  | none =>
    -- all are accepted, so that the token could only be invalid because it is blocked
    have haccepted := (Variant.firstRejected?_eq_none_iff _ _).mp hrejected
    have hblocked : r.isBlocked token = true := by
      rw [isValid_of_accepted hvariants haccepted hutility, Bool.not_eq_false'] at hvalid
      exact hvalid
    obtain ⟨first, rest, hfirst⟩ := List.exists_cons_of_ne_nil hvariants
    simp [hblocked, hfirst]

/-! ## Behind variants -/

theorem checkCompound_eq_invalidClass_iff {named : Text} :
    r.checkCompound token (Token.parse token) = some (.invalidClass named) ↔
      named = (Token.parse token).base
        ∧ (r.isValid (Token.parse token).base = false
          ∨ r.isCss (Token.parse token).base = true) := by
  unfold checkCompound
  rw [@eq_comm _ named]
  cases r.isValid (Token.parse token).base with
  | false => simp
  | true => cases r.isCss (Token.parse token).base <;> simp

theorem checkCompound_eq_invalidVariant_iff (hr : r.IsUnion)
    (hvariants : (Token.parse token).variants ≠ []) {named v : Text} :
    r.checkCompound token (Token.parse token) = some (.invalidVariant named v) ↔
      named = token ∧ r.isUtilityOnly (Token.parse token).base = true ∧ r.isValid token = false
        ∧ r.Blames token v := by
  unfold checkCompound
  cases honly : r.isUtilityOnly (Token.parse token).base with
  | false => simp
  | true =>
    obtain ⟨hbase, hcss⟩ := (isUtilityOnly_base hr token).mp honly
    have hutility : r.isUtility (Token.parse token).base = true := by
      rw [isUtilityOnly, hcss] at honly
      exact honly
    cases hvalid : r.isValid token with
    | true => simp [hbase, hcss]
    | false =>
      rw [blames_iff hvariants hutility hvalid]
      simp [hbase, hcss, eq_comm]

/-! ## Findings -/

/-- When a class is named. -/
theorem check_eq_invalidClass_iff {named : Text} :
    r.check ignore token = some (.invalidClass named) ↔
      NamePattern.anyAccepts ignore (Token.parse token).base = false
        ∧ named = (Token.parse token).base
        ∧ (Arbitrary.isEmpty (Token.parse token).base = true
          ∨ r.isValid (Token.parse token).base = false
          ∨ (r.isCss (Token.parse token).base = true ∧ (Token.parse token).variants ≠ [])) := by
  cases hignored : NamePattern.anyAccepts ignore (Token.parse token).base with
  | true => simp [check_of_ignored hignored]
  | false =>
    cases hempty : Arbitrary.isEmpty (Token.parse token).base with
    | true => simp [check_of_isEmpty hignored hempty, @eq_comm _ named]
    | false =>
      by_cases hvariants : (Token.parse token).variants = []
      · have hhas : (Token.parse token).hasVariants = false := by simp [hvariants]
        unfold check checkParsed
        cases r.isValid (Token.parse token).base <;>
          simp [hignored, hempty, hhas, hvariants, @eq_comm _ named]
      · rw [check_of_variants_ne_nil hignored hempty hvariants, checkCompound_eq_invalidClass_iff]
        simp [hvariants]

/-- When a variant is named. -/
theorem check_eq_invalidVariant_iff (hr : r.IsUnion) {named v : Text} :
    r.check ignore token = some (.invalidVariant named v) ↔
      NamePattern.anyAccepts ignore (Token.parse token).base = false
        ∧ Arbitrary.isEmpty (Token.parse token).base = false
        ∧ named = token ∧ r.isUtilityOnly (Token.parse token).base = true
        ∧ r.isValid token = false ∧ r.Blames token v := by
  cases hignored : NamePattern.anyAccepts ignore (Token.parse token).base with
  | true => simp [check_of_ignored hignored]
  | false =>
    cases hempty : Arbitrary.isEmpty (Token.parse token).base with
    | true => simp [check_of_isEmpty hignored hempty]
    | false =>
      by_cases hvariants : (Token.parse token).variants = []
      · -- without variants there is none to blame, and only a class can be named
        have hblames : ¬ r.Blames token v := by
          rintro (⟨before, after, hchain, -⟩ | ⟨-, -, hhead⟩)
          · simp [hvariants] at hchain
          · simp [hvariants] at hhead
        have hhas : (Token.parse token).hasVariants = false := by simp [hvariants]
        unfold check checkParsed
        cases r.isValid (Token.parse token).base <;> simp [hignored, hempty, hhas, hblames]
      · rw [check_of_variants_ne_nil hignored hempty hvariants,
          checkCompound_eq_invalidVariant_iff hr hvariants]
        simp

end Registry

/-- **Blame is accurate.**  For the registry of any request, a variant is named
    exactly if the base of the token is a utility that is not left to the
    stylesheets, the token is not valid, and the variant is the first one that is
    not accepted, or all are accepted, the token is blocked and the variant is the
    first of all.  A class is named exactly if it is the base of the token and has
    an empty value, or is not valid, or is left to the stylesheets and stands
    behind variants.  Ignored bases are apart from this, and a variant is not named
    where the base has an empty value. -/
theorem RegistryRequest.check_blames (request : RegistryRequest) (g : Generator) (t : FileTree)
    (key? : Option Digest) (ignore : List NamePattern) (token : Text) :
    let r := request.build g t key?
    let parsed := Token.parse token
    (∀ named v, r.check ignore token = some (.invalidVariant named v) ↔
      NamePattern.anyAccepts ignore parsed.base = false ∧ Arbitrary.isEmpty parsed.base = false
        ∧ named = token ∧ r.isUtilityOnly parsed.base = true ∧ r.isValid token = false
        ∧ (Variant.IsFirstRejected r.variants parsed.variants v
          ∨ ((∀ w ∈ parsed.variants, Variant.accepts r.variants w = true)
            ∧ request.Blocks token ∧ parsed.variants.head? = some v)))
    ∧ ∀ named, r.check ignore token = some (.invalidClass named) ↔
      NamePattern.anyAccepts ignore parsed.base = false ∧ named = parsed.base
        ∧ (Arbitrary.isEmpty parsed.base = true ∨ r.isValid parsed.base = false
          ∨ (r.isCss parsed.base = true ∧ parsed.variants ≠ [])) := by
  intro r parsed
  have hr : r.IsUnion := Registry.isUnion_ofSources key? (request.sources g t)
  have hblocked : r.isBlocked token = true ↔ request.Blocks token :=
    NamePattern.anyAccepts_compileAll request.blocklist token
  refine ⟨?_, fun _ => Registry.check_eq_invalidClass_iff⟩
  intro named v
  rw [Registry.check_eq_invalidVariant_iff hr, Registry.Blames, hblocked]

end ClassLint
