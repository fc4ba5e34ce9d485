/-
  ClassLint.Token.Variant

  Which variants may stand in front of a base.  A bracketed condition is always
  accepted; `group-` and `peer-` refer to a known variant of another element;
  anything else has to be known itself.
-/

import ClassLint.OrderedSet
import ClassLint.Token

namespace ClassLint.Variant

/-- A bracketed condition such as `[&>*]`. -/
def isBracketed (v : Text) : Bool :=
  2 ≤ v.length && v.head? == some '[' && v.getLast? == some ']'

/-- The variant that `group-…` or `peer-…` refers to. -/
def relative? (v : Text) : Option Text :=
  ("group-".toList.isPrefixOf? v).or ("peer-".toList.isPrefixOf? v)

/-- A variant is accepted if it is bracketed, or known, or relative to a known one. -/
def accepts (known : OrderedSet Text) (v : Text) : Bool :=
  if v.isEmpty then false
  else if isBracketed v then true
  else match relative? v with
    | some target => known.contains target
    | none => known.contains v

def firstRejected? (known : OrderedSet Text) (variants : List Text) : Option Text :=
  variants.find? fun v => !accepts known v

theorem firstRejected?_eq_none_iff (known : OrderedSet Text) (variants : List Text) :
    firstRejected? known variants = none ↔ ∀ v ∈ variants, accepts known v = true := by
  simp [firstRejected?]

end ClassLint.Variant
