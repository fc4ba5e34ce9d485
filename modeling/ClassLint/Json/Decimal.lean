/-
  ClassLint.Json.Decimal

  Decimal text of binary64 numbers, in both directions.

  Reading keeps the leading digits that fit 64 bits as the significand, scales
  it by a power of ten, and refuses a number beyond the greatest finite one.
  Writing selects the shortest digits that read back to the same number, by
  comparing decimals with the rounding interval in exact arithmetic, and then
  lays them out positionally or with an exponent.
-/

import ClassLint.Json
import ClassLint.Power

namespace ClassLint.Decimal

/-! ## Reading -/

/-- The digits read so far: `significand * 10 ^ exponent`. -/
structure Parts where
  significand : Nat
  exponent : Int
deriving DecidableEq, Repr, Inhabited

def fits (significand : Nat) : Bool := significand < twoTo 64

def digit (c : Char) : Nat := c.toNat - '0'.toNat

/-- Integer digits extend the significand while it fits; from the first that
    does not, each raises the exponent. -/
def integerDigits (p : Parts) : List Char → Parts
  | [] => p
  | c :: rest =>
    let next := p.significand * 10 + digit c
    if fits next then integerDigits ⟨next, p.exponent⟩ rest
    else ⟨p.significand, p.exponent + (rest.length + 1)⟩

/-- Fraction digits extend the significand while it fits, each lowering the
    exponent; the rest is dropped. -/
def fractionDigits (p : Parts) : List Char → Parts
  | [] => p
  | c :: rest =>
    let next := p.significand * 10 + digit c
    if fits next then fractionDigits ⟨next, p.exponent - 1⟩ rest else p

/-- A power of ten as the nearest binary64 number. -/
def powerOfTen (n : Nat) : Float := Float.ofScientific 1 false n

/-- Scale by a power of ten.  Powers from 10^-308 to 10^308 are applied at
    once, smaller ones in steps of 10^-308; there is no result beyond the
    greatest finite number.  Three steps take every significand to zero. -/
def scale (steps : Nat) (x : Float) (exponent : Int) : Option Float :=
  if exponent.natAbs ≤ 308 then
    if 0 ≤ exponent then
      let y := x * powerOfTen exponent.natAbs
      if y.isFinite then some y else none
    else some (x / powerOfTen exponent.natAbs)
  else if x == 0 then some x
  else if 0 ≤ exponent then none
  else match steps with
    | 0 => some 0
    | n + 1 => scale n (x / powerOfTen 308) (exponent + 308)

def Parts.toDouble? (p : Parts) (negative : Bool) : Option JsonNumber :=
  (scale 3 p.significand.toUInt64.toFloat p.exponent).map fun x =>
    .double (if negative then (-x).toBits else x.toBits)

/-! ## Shortest digits -/

/-- A finite non-negative binary64 number, `m * 2^q`. -/
structure Binary where
  m : Nat
  q : Int
  /-- The gap to the number below is half the gap to the number above. -/
  narrowBelow : Bool
deriving DecidableEq, Repr

/-- The magnitude with these bits; the sign is ignored. -/
def Binary.ofBits (bits : UInt64) : Binary :=
  let e := ((bits >>> 52) &&& 0x7FF).toNat
  let f := (bits &&& 0xFFFFFFFFFFFFF).toNat
  if e = 0 then ⟨f, -1074, false⟩ else ⟨twoTo 52 + f, (e : Int) - 1075, f = 0 && 1 < e⟩

/-- Compare `a * 10^i` with `n * 2^j`. -/
def compareScaled (a : Nat) (i : Int) (n : Nat) (j : Int) : Ordering :=
  compare (a * tenTo i.toNat * twoTo (-j).toNat) (n * twoTo j.toNat * tenTo (-i).toNat)

/-- The decimal lies among the reals that round to `x`: between the midpoints to
    its neighbours, which count when `m` is even. -/
def Binary.readsBack (x : Binary) (d : Parts) : Bool :=
  let low := if x.narrowBelow then 4 * x.m - 1 else 4 * x.m - 2
  let high := 4 * x.m + 2
  let closed := x.m % 2 == 0
  let atLow := compareScaled d.significand d.exponent low (x.q - 2)
  let atHigh := compareScaled d.significand d.exponent high (x.q - 2)
  (atLow == .gt || (closed && atLow == .eq)) && (atHigh == .lt || (closed && atHigh == .eq))

/-- `⌊m * 2^q / 10^k⌋`. -/
def Binary.floorAt (x : Binary) (k : Int) : Nat :=
  (x.m * twoTo x.q.toNat * tenTo (-k).toNat) / (twoTo (-x.q).toNat * tenTo k.toNat)

/-- The point of the grid `10^k` next to `x` that reads back, the nearer of two;
    an exact tie goes to the even digit. -/
def Binary.onGrid? (x : Binary) (k : Int) : Option Parts :=
  let low := x.floorAt k
  let below : Parts := ⟨low, k⟩
  let above : Parts := ⟨low + 1, k⟩
  match x.readsBack below && low != 0, x.readsBack above with
  | true, true =>
    match compareScaled (2 * low + 1) k (2 * x.m) x.q with
    | .lt => some above
    | .gt => some below
    | .eq => some (if low % 2 = 0 then below else above)
  | true, false => some below
  | false, true => some above
  | false, false => none

/-- The number of decimal digits before the point: the least `k` with `x < 10^k`. -/
def Binary.magnitude (x : Binary) : Int :=
  let guess : Int := ((x.m.log2 : Int) + x.q) * 30103 / 100000
  ((List.range 4).map fun (i : Nat) => guess - 1 + i).find?
    (fun k => compareScaled 1 k x.m x.q == .gt) |>.getD (guess + 3)

/-- Move trailing zeros of the digits into the exponent, up to `n` of them. -/
def Parts.strip : Nat → Parts → Parts
  | 0, p => p
  | n + 1, p =>
    if p.significand ≠ 0 ∧ p.significand % 10 = 0 then
      Parts.strip n ⟨p.significand / 10, p.exponent + 1⟩
    else p

/-- The fewest digits that read back to `x`, or its exact value. -/
def Binary.shortest (x : Binary) : Parts :=
  if x.m = 0 then ⟨0, 0⟩
  else
    let k := x.magnitude
    match (List.range 17).findSome? fun n => x.onGrid? (k - (n + 1 : Nat)) with
    | some d => d.strip 20
    | none => ⟨x.m * twoTo x.q.toNat * Nat.pow 5 (-x.q).toNat, min x.q 0⟩

/-! ## Layout -/

/-- Digits with the point `point` places behind their start: positional while
    the point is at most 16 places in or less than 5 places before the digits,
    with an exponent otherwise. -/
def layout (digits : Text) (point : Int) : Text :=
  let n : Int := digits.length
  if n ≤ point ∧ point ≤ 16 then
    digits ++ List.replicate (point - n).toNat '0' ++ ['.', '0']
  else if 0 < point ∧ point ≤ 16 then
    digits.take point.toNat ++ '.' :: digits.drop point.toNat
  else if -5 < point ∧ point ≤ 0 then
    '0' :: '.' :: List.replicate (-point).toNat '0' ++ digits
  else
    let e := point - 1
    let exponent := 'e' :: (if e < 0 then ['-'] else []) ++ Text.ofNat e.natAbs
    match digits with
    | [d] => d :: exponent
    | d :: rest => d :: '.' :: rest ++ exponent
    | [] => exponent

def render (bits : UInt64) : Text :=
  let d := (Binary.ofBits bits).shortest
  let digits := Text.ofNat d.significand
  let magnitude :=
    if d.significand = 0 then ['0', '.', '0'] else layout digits (digits.length + d.exponent)
  if bits >>> 63 = 1 then '-' :: magnitude else magnitude

end ClassLint.Decimal
