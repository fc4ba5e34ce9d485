/-
  ClassLint.Document.Scalar

  What a scalar without quotes is by its spelling: nothing, a truth value, an
  integer, another number, or a text.  The words are spelled in lower case, in
  upper case or with a capital; an integer may be written in the bases 16, 8
  and 2 behind `0x`, `0o` and `0b`; digits behind a needless zero are a text.
-/

import ClassLint.Power
import ClassLint.Text

namespace ClassLint.Scalar

inductive Reading where
  | null
  | bool (value : Bool)
  /-- An integer of at most 128 bits, by its sign and magnitude. -/
  | integer (negative : Bool) (magnitude : Nat)
  /-- Another number. -/
  | real
  | text
deriving DecidableEq, Repr, Inhabited

def digitValue (c : Char) : Nat :=
  if '0' ≤ c ∧ c ≤ '9' then c.toNat - '0'.toNat
  else if 'a' ≤ c ∧ c ≤ 'f' then c.toNat - 'a'.toNat + 10
  else if 'A' ≤ c ∧ c ≤ 'F' then c.toNat - 'A'.toNat + 10
  else 16

/-- The natural number with these digits in a base: at least one digit, and nothing else. -/
def natural? (base : Nat) (digits : Text) : Option Nat :=
  if !digits.isEmpty && digits.all (digitValue · < base) then
    some (digits.foldl (fun n c => n * base + digitValue c) 0)
  else none

/-- Decimal digits of which the first is a zero and not the only one. -/
def hasNeedlessZero (digits : Text) : Bool :=
  1 < digits.length && digits.head? == some '0' && digits.all Char.isDigit

/-- The magnitude of an integer behind its sign. -/
def magnitude? : Text → Option Nat
  | '0' :: 'x' :: digits => natural? 16 digits
  | '0' :: 'o' :: digits => natural? 8 digits
  | '0' :: 'b' :: digits => natural? 2 digits
  | digits => if hasNeedlessZero digits then none else natural? 10 digits

/-- The digits of a number with a fraction or an exponent, as `significand * 10 ^ exponent`. -/
def decimal? (t : Text) : Option (Nat × Int) :=
  let whole := t.takeWhile Char.isDigit
  let rest := t.dropWhile Char.isDigit
  let (fraction, rest) := match rest with
    | '.' :: rest => (rest.takeWhile Char.isDigit, rest.dropWhile Char.isDigit)
    | _ => ([], rest)
  match natural? 10 (whole ++ fraction) with
  | none => none
  | some significand =>
    let shift : Int := -(fraction.length : Int)
    match rest with
    | [] => some (significand, shift)
    | mark :: rest =>
      if mark ≠ 'e' ∧ mark ≠ 'E' then none
      else match rest with
        | '-' :: digits => (natural? 10 digits).map fun n => (significand, shift - n)
        | '+' :: digits => (natural? 10 digits).map fun n => (significand, shift + n)
        | digits => (natural? 10 digits).map fun n => (significand, shift + n)

/-- `significand * 10 ^ exponent` does not round beyond the greatest finite
    binary64 number. -/
def isFinite (significand : Nat) (exponent : Int) : Bool :=
  let places := (Text.ofNat significand).length + exponent
  if significand = 0 ∨ places ≤ 308 then true
  else if 309 < places then false
  else significand * tenTo exponent.toNat < (twoTo 1024 - twoTo 970) * tenTo (-exponent).toNat

/-- A finite number behind its sign. -/
def isFiniteDecimal (t : Text) : Bool :=
  (decimal? t).any fun d => isFinite d.1 d.2

def infinityWords : List Text := [".inf", ".Inf", ".INF"].map String.toList

def undefinedWords : List Text := [".nan", ".NaN", ".NAN"].map String.toList

/-- A number that need not be an integer. -/
def isReal (t : Text) : Bool :=
  undefinedWords.contains t ||
  match t with
  | '+' :: rest => infinityWords.contains rest || isFiniteDecimal rest
  | '-' :: rest => infinityWords.contains rest || isFiniteDecimal rest
  | rest => infinityWords.contains rest || isFiniteDecimal rest

/-- A text without its sign, and whether the sign is a minus. -/
def splitSign : Text → Bool × Text
  | '-' :: rest => (true, rest)
  | '+' :: rest => (false, rest)
  | rest => (false, rest)

/-- An integer of at most 128 bits, by its sign and magnitude. -/
def integer? (t : Text) : Option (Bool × Nat) :=
  let (negative, digits) := splitSign t
  (magnitude? digits).bind fun n =>
    if n < twoTo (if negative then 127 else 128) ∨ (negative ∧ n = twoTo 127) then
      some (negative, n)
    else none

/-- The reading of a spelling that is no word. -/
def readNumber (t : Text) : Reading :=
  match integer? t with
  | some (negative, magnitude) => .integer negative magnitude
  | none => if !hasNeedlessZero (splitSign t).2 && isReal t then .real else .text

def nullWords : List Text := ["", "null", "Null", "NULL", "~"].map String.toList

def trueWords : List Text := ["true", "True", "TRUE"].map String.toList

def falseWords : List Text := ["false", "False", "FALSE"].map String.toList

def read (t : Text) : Reading :=
  if nullWords.contains t then .null
  else if trueWords.contains t then .bool true
  else if falseWords.contains t then .bool false
  else readNumber t

end ClassLint.Scalar
