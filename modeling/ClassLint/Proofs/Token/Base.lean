/-
  ClassLint.Proofs.Token.Base

  The base of a token is what is left when no further variant can be split off,
  so that reading it once more gives no variants.  A token without variants is
  its own base.
-/

import ClassLint.Token

namespace ClassLint.Token

/-- Nothing can be split off the base of a token. -/
theorem splitVariant_base (t : Text) : splitVariant (parse t).base = none := by
  fun_induction parse t with
  | case1 t variant rest h ih =>
    -- a variant in front leaves the base as it is
    show splitVariant (parse rest).base = none
    exact ih
  | case2 t h => exact h

/-- The base of a token is read as itself, without variants. -/
theorem parse_base (t : Text) : parse (parse t).base = ⟨[], (parse t).base⟩ :=
  parse_of_splitVariant_none (splitVariant_base t)

/-- A token without variants is its own base. -/
theorem base_of_variants_nil {t : Text} (h : (parse t).variants = []) : (parse t).base = t := by
  cases hs : splitVariant t with
  | none => rw [parse_of_splitVariant_none hs]
  | some p =>
    rw [parse_of_splitVariant hs] at h
    exact absurd h (List.cons_ne_nil _ _)

@[simp]
theorem hasVariants_eq_false_iff (t : Token) : t.hasVariants = false ↔ t.variants = [] := by
  simp [hasVariants]

@[simp]
theorem hasVariants_iff (t : Token) : t.hasVariants = true ↔ t.variants ≠ [] := by
  simp [hasVariants]

end ClassLint.Token
