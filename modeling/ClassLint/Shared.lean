/-
  ClassLint.Shared

  Values with an identity.  A cache that returns a value it already holds
  returns the very same instance, and its callers may rely on that.  An
  instance is a value with a number, and a maker of instances never gives a
  number twice.
-/

namespace ClassLint

/-- A value with an identity. -/
structure Shared (α : Type) where
  /-- The number of the instance among all that its maker made. -/
  id : Nat
  value : α
deriving DecidableEq, Repr, Inhabited

end ClassLint
