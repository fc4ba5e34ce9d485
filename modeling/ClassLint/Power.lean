/-
  ClassLint.Power

  Powers of two and ten.  Widths of integers are bounds by powers of two, and a
  decimal number is scaled by powers of ten.
-/

namespace ClassLint

def twoTo (width : Nat) : Nat := Nat.pow 2 width

/-- The least number with more than `places` decimal digits. -/
def tenTo (places : Nat) : Nat := Nat.pow 10 places

end ClassLint
