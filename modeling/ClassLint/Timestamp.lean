/-
  ClassLint.Timestamp

  Moments of time and their text: a date of the Gregorian calendar and a time
  of day in UTC, such as `2024-01-01T00:00:00Z`.  The fraction of a second has
  no digits, or the fewest of three, six and nine that lose nothing.
-/

import ClassLint.Text

namespace ClassLint

/-- A moment, in nanoseconds since the beginning of 1970. -/
structure Timestamp where
  nanoseconds : Int
deriving DecidableEq, Repr, Inhabited

namespace Timestamp

def perSecond : Int := 1000000000

/-- The seconds of a day. -/
def perDay : Int := 86400

/-- The year, month and day of a day counted from the beginning of 1970. -/
def date (day : Int) : Int × Int × Int :=
  -- counted from the first of March of year zero, so that a leap day ends a year;
  -- 400 years have 146097 days
  let shifted := day + 719468
  let era := shifted.fdiv 146097
  let dayOfEra := shifted.fmod 146097
  let yearOfEra := (dayOfEra - dayOfEra / 1460 + dayOfEra / 36524 - dayOfEra / 146096) / 365
  let dayOfYear := dayOfEra - (365 * yearOfEra + yearOfEra / 4 - yearOfEra / 100)
  let month := (5 * dayOfYear + 2) / 153
  let dayOfMonth := dayOfYear - (153 * month + 2) / 5 + 1
  let year := yearOfEra + era * 400
  if month < 10 then (year, month + 3, dayOfMonth) else (year + 1, month - 9, dayOfMonth)

/-- At least so many digits. -/
def padded (width n : Nat) : Text :=
  let digits := Text.ofNat n
  List.replicate (width - digits.length) '0' ++ digits

/-- A year: four digits, behind a sign where it has more or lies before year zero. -/
def yearText (year : Int) : Text :=
  if year < 0 then '-' :: padded 4 year.natAbs
  else if 9999 < year then '+' :: padded 4 year.natAbs
  else padded 4 year.natAbs

def fractionText (nanoseconds : Nat) : Text :=
  if nanoseconds = 0 then []
  else if nanoseconds % 1000000 = 0 then '.' :: padded 3 (nanoseconds / 1000000)
  else if nanoseconds % 1000 = 0 then '.' :: padded 6 (nanoseconds / 1000)
  else '.' :: padded 9 nanoseconds

def render (t : Timestamp) : Text :=
  let seconds := t.nanoseconds.fdiv perSecond
  let (year, month, day) := date (seconds.fdiv perDay)
  let second := (seconds.fmod perDay).toNat
  yearText year ++ '-' :: padded 2 month.toNat ++ '-' :: padded 2 day.toNat
    ++ 'T' :: padded 2 (second / 3600) ++ ':' :: padded 2 (second / 60 % 60)
    ++ ':' :: padded 2 (second % 60) ++ fractionText (t.nanoseconds.fmod perSecond).toNat ++ ['Z']

end Timestamp

end ClassLint
