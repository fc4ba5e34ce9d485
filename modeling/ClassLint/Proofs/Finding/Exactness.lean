/-
  ClassLint.Proofs.Finding.Exactness

  When a check finds nothing.  A token passes exactly if its base is ignored, or
  if the token is valid, its base is no empty arbitrary value and, behind
  variants, the base is valid by itself and not left to the stylesheets.

  On several of its ways a check never asks whether the token as a whole is
  valid.  That it need not rests on two facts: a base has no variants of its
  own, and the names of a registry are those of its stylesheets and utilities.
-/

import ClassLint.Finding
import ClassLint.Proofs.Registry.Union

namespace ClassLint.Registry

/-- A check behind variants passes exactly if the base is valid and no
    stylesheet's own, and the token is valid as a whole. -/
theorem checkCompound_eq_none_iff {r : Registry} (hr : r.IsUnion) (token : Text) :
    r.checkCompound token (Token.parse token) = none ↔
      r.isValid token = true ∧ r.isValid (Token.parse token).base = true
        ∧ r.isCss (Token.parse token).base = false := by
  unfold checkCompound
  by_cases hbase : r.isValid (Token.parse token).base = true
  · cases hcss : r.isCss (Token.parse token).base with
    | true => simp [hbase]
    | false =>
      have hutility := isUtility_of_isValid_base hr hbase hcss
      have honly : r.isUtilityOnly (Token.parse token).base = true := by
        simp [isUtilityOnly, hcss, hutility]
      cases r.isValid token <;> simp [hbase, honly]
  · simp [hbase]

/-- A check without variants passes exactly if the token is valid. -/
theorem checkParsed_of_variants_nil {r : Registry} {ignore : List NamePattern} {token : Text}
    (hignored : NamePattern.anyAccepts ignore (Token.parse token).base = false)
    (hempty : Arbitrary.isEmpty (Token.parse token).base = false)
    (hvariants : (Token.parse token).variants = []) :
    r.checkParsed ignore token (Token.parse token) = none ↔ r.isValid token = true := by
  have hbase := Token.base_of_variants_nil hvariants
  have hhas : (Token.parse token).hasVariants = false := by simp [hvariants]
  rw [hbase] at hignored hempty
  unfold checkParsed
  rw [hbase, hignored, hempty, hhas]
  simp

/-- **A check passes exactly the valid tokens.**  For a registry of any sources
    and any list of ignored names, nothing is found if and only if the base is
    ignored, or the base is no empty arbitrary value, the token is valid and,
    where it has variants, its base is valid and not left to the stylesheets.
    So a token that passes without being ignored is valid. -/
theorem check_eq_none_iff (key? : Option Digest) (sources : RegistrySources)
    (ignore : List NamePattern) (token : Text) :
    ((ofSources key? sources).check ignore token = none ↔
      NamePattern.anyAccepts ignore (Token.parse token).base = true
        ∨ (Arbitrary.isEmpty (Token.parse token).base = false
          ∧ (ofSources key? sources).isValid token = true
          ∧ ((Token.parse token).variants = []
            ∨ ((ofSources key? sources).isValid (Token.parse token).base = true
              ∧ (ofSources key? sources).isCss (Token.parse token).base = false))))
    ∧ (NamePattern.anyAccepts ignore (Token.parse token).base = false →
        (ofSources key? sources).check ignore token = none →
        (ofSources key? sources).isValid token = true) := by
  have hunion := isUnion_ofSources key? sources
  generalize ofSources key? sources = r at hunion ⊢
  have hiff : r.check ignore token = none ↔
      NamePattern.anyAccepts ignore (Token.parse token).base = true
        ∨ (Arbitrary.isEmpty (Token.parse token).base = false ∧ r.isValid token = true
          ∧ ((Token.parse token).variants = []
            ∨ (r.isValid (Token.parse token).base = true
              ∧ r.isCss (Token.parse token).base = false))) := by
    unfold check
    cases hignored : NamePattern.anyAccepts ignore (Token.parse token).base with
    | true => simp [checkParsed, hignored]
    | false =>
      cases hempty : Arbitrary.isEmpty (Token.parse token).base with
      | true => simp [checkParsed, hignored, hempty]
      | false =>
        by_cases hvariants : (Token.parse token).variants = []
        · simp [checkParsed_of_variants_nil hignored hempty hvariants, hvariants]
        · have hhas : (Token.parse token).hasVariants = true := by simp [hvariants]
          have hcompound := checkCompound_eq_none_iff hunion token
          simp [checkParsed, hignored, hempty, hhas, hvariants, hcompound]
  refine ⟨hiff, ?_⟩
  intro hignored hnone
  rcases hiff.mp hnone with h | h
  · rw [hignored] at h
    exact absurd h (by decide)
  · exact h.2.1

end ClassLint.Registry
