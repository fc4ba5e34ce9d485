/-
  ClassLint.Proofs.Registry.Union

  What the sets of a built registry hold: the set of all names is the union of
  the stylesheets' names and the utilities, and a name without variants is
  listed exactly if it is a stylesheet's name or a utility.
-/

import ClassLint.Proofs.Token.Base
import ClassLint.Registry

namespace ClassLint.Registry

/-! ## The union of both kinds of names -/

/-- All names of the registry are those of the stylesheets and of the utilities. -/
def IsUnion (r : Registry) : Prop :=
  ∀ name, r.all.contains name = (r.css.contains name || r.utilities.contains name)

theorem isUnion_ofSources (key? : Option Digest) (s : RegistrySources) :
    (ofSources key? s).IsUnion := by
  intro name
  rw [Bool.eq_iff_iff]
  simp only [ofSources, Bool.or_eq_true, OrderedSet.contains_iff, OrderedSet.mem_ofList,
    List.mem_append]

/-! ## Names without variants -/

/-- The base of a token makes no compound. -/
theorem isCompound_base (r : Registry) (token : Text) :
    r.isCompound (Token.parse token).base = false := by
  simp [isCompound, Token.parse_base, Token.hasVariants]

/-- A valid base that some stylesheet does not have for itself is a utility. -/
theorem isUtility_of_isValid_base {r : Registry} (hr : r.IsUnion) {token : Text}
    (hvalid : r.isValid (Token.parse token).base = true)
    (hcss : r.isCss (Token.parse token).base = false) :
    r.isUtility (Token.parse token).base = true := by
  have hlisted : r.isBlocked (Token.parse token).base = false
      ∧ r.isListed (Token.parse token).base = true := by
    simpa [isValid, isCompound_base] using hvalid
  obtain ⟨hblocked, hlisted⟩ := hlisted
  rw [isListed, hr] at hlisted
  -- what is left of the union once the stylesheets' own names are gone are the utilities
  simp only [isCss, Bool.and_eq_false_iff, Bool.not_eq_false'] at hcss
  simp only [isUtility, hblocked, Bool.not_false, Bool.true_and]
  simp only [Bool.or_eq_true] at hlisted ⊢
  rcases hlisted with ((hin | hin) | hallow) | harbitrary
  · exact Or.inl (Or.inl (hcss.resolve_left (by simp [hin])))
  · exact Or.inl (Or.inl hin)
  · exact Or.inl (Or.inr hallow)
  · exact Or.inr harbitrary

end ClassLint.Registry
