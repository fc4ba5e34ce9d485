/-
  ClassLint.Json.Reader

  Reading JSON text.  The whole text has to be one value between blanks.

  A well written text may still have flawed parts, of which no value can be
  made: escapes of unpaired surrogates, numbers beyond the greatest finite one,
  and arrays and objects nested more than 127 deep.  A reader of values refuses
  such a text; a reader that leaves out what it does not need may pass over
  them.  A `Form` says what the parts of a text are read as.
-/

import ClassLint.Json.Decimal

namespace ClassLint.Json

/-- The greatest depth of arrays and objects inside one another. -/
def maxDepth : Nat := 127

/-- The blanks of JSON: space, tab, line feed and carriage return. -/
def skipBlanks (t : Text) : Text :=
  t.dropWhile fun c => c == ' ' || c == '\n' || c == '\t' || c == '\r'

/-! ## Strings -/

def hexDigit? (c : Char) : Option Nat :=
  if '0' ≤ c ∧ c ≤ '9' then some (c.toNat - '0'.toNat)
  else if 'a' ≤ c ∧ c ≤ 'f' then some (c.toNat - 'a'.toNat + 10)
  else if 'A' ≤ c ∧ c ≤ 'F' then some (c.toNat - 'A'.toNat + 10)
  else none

def hexUnit? : Text → Option (Nat × Text)
  | a :: b :: c :: d :: rest => do
    let unit := ((← hexDigit? a) * 16 + (← hexDigit? b)) * 256 + (← hexDigit? c) * 16 + (← hexDigit? d)
    some (unit, rest)
  | _ => none

/-- The character of a `\u` escape; a leading surrogate needs a trailing one
    behind it, and an unpaired one is no character. -/
def unicodeEscape? (t : Text) : Option (Option Char × Text) := do
  let (unit, rest) ← hexUnit? t
  if 0xD800 ≤ unit ∧ unit ≤ 0xDBFF then
    match rest with
    | '\\' :: 'u' :: behind =>
      let (trailing, behind) ← hexUnit? behind
      if 0xDC00 ≤ trailing ∧ trailing ≤ 0xDFFF then
        some (Char.ofNat (0x10000 + (unit - 0xD800) * 0x400 + (trailing - 0xDC00)), behind)
      else some (none, rest)
    | _ => some (none, rest)
  else if 0xDC00 ≤ unit ∧ unit ≤ 0xDFFF then some (none, rest)
  else some (Char.ofNat unit, rest)

/-- The character of an escape, read behind its backslash. -/
def escape? : Text → Option (Option Char × Text)
  | '"' :: rest => some ('"', rest)
  | '\\' :: rest => some ('\\', rest)
  | '/' :: rest => some ('/', rest)
  | 'b' :: rest => some ('\x08', rest)
  | 'f' :: rest => some ('\x0c', rest)
  | 'n' :: rest => some ('\n', rest)
  | 'r' :: rest => some ('\r', rest)
  | 't' :: rest => some ('\t', rest)
  | 'u' :: rest => unicodeEscape? rest
  | _ => none

/-- The rest of a string behind its opening quote; `read` is what was read, last
    first, unless that is flawed. -/
def stringBody? : Nat → Option Text → Text → Option (Option Text × Text)
  | 0, _, _ => none
  | _ + 1, _, [] => none
  | fuel + 1, read, c :: rest =>
    if c = '"' then some (read.map List.reverse, rest)
    else if c = '\\' then
      match escape? rest with
      | some (d, rest) => stringBody? fuel (do some ((← d) :: (← read))) rest
      | none => none
    else if c.toNat < 0x20 then none
    else stringBody? fuel (read.map (c :: ·)) rest

/-! ## Numbers -/

/-- The sign and digits of an exponent, read behind its mark.  A number whose
    exponent does not fit 31 bits is zero or beyond every finite number. -/
def exponent? (p : Decimal.Parts) (t : Text) : Option (Option Decimal.Parts × Text) :=
  let (negative, t) := match t with
    | '+' :: rest => (false, rest)
    | '-' :: rest => (true, rest)
    | _ => (false, t)
  let digits := t.takeWhile Char.isDigit
  let rest := t.dropWhile Char.isDigit
  if digits.isEmpty then none
  else
    let magnitude := digits.foldl (fun n c => n * 10 + Decimal.digit c) 0
    if magnitude < twoTo 31 then
      some (some ⟨p.significand, p.exponent + if negative then -(magnitude : Int) else magnitude⟩, rest)
    else if p.significand ≠ 0 ∧ !negative then some (none, rest)
    else some (some ⟨0, 0⟩, rest)

/-- The fraction digits, read behind the point: at least one is required. -/
def fraction? (p : Decimal.Parts) (t : Text) : Option (Decimal.Parts × Text) :=
  let digits := t.takeWhile Char.isDigit
  if digits.isEmpty then none
  else some (Decimal.fractionDigits p digits, t.dropWhile Char.isDigit)

/-- A number without fraction and exponent: an integer where it fits 64 bits.
    Zero with a sign, and what lies beyond, is a floating-point number. -/
def wholeNumber? (negative overflow : Bool) (p : Decimal.Parts) : Option JsonNumber :=
  if overflow then p.toDouble? negative
  else if !negative then some (.integer p.significand)
  else if 0 < p.significand ∧ p.significand ≤ twoTo 63 then some (.integer (-p.significand))
  else p.toDouble? true

/-- The number behind an optional sign; one beyond the greatest finite number is flawed. -/
def magnitude? (negative : Bool) (t : Text) : Option (Option JsonNumber × Text) := do
  let digits := t.takeWhile Char.isDigit
  let rest := t.dropWhile Char.isDigit
  if digits.isEmpty ∨ (digits.head? = some '0' ∧ 1 < digits.length) then none
  else
    let p := Decimal.integerDigits ⟨0, 0⟩ digits
    let (p, rest, isWhole) ← match rest with
      | '.' :: rest => (fraction? p rest).map fun q => (q.1, q.2, false)
      | _ => some (p, rest, true)
    let (q, rest, isWhole) ← match rest with
      | 'e' :: rest => (exponent? p rest).map fun q => (q.1, q.2, false)
      | 'E' :: rest => (exponent? p rest).map fun q => (q.1, q.2, false)
      | _ => some (some p, rest, isWhole)
    let value := q.bind fun q =>
      if isWhole then wholeNumber? negative (p.exponent != 0) q else q.toDouble? negative
    some (value, rest)

def number? : Text → Option (Option JsonNumber × Text)
  | '-' :: rest => magnitude? true rest
  | t => magnitude? false t

/-! ## Values -/

/-- What the parts of a text are read as. -/
structure Form (α : Type) where
  /-- A value without parts. -/
  leaf : Json → α
  array : List α → α
  object : List (Text × α) → α
  /-- What stands for a flawed part; a text with one is refused if there is nothing. -/
  flawed? : Option α

def strict : Form Json where
  leaf := id
  array := array
  object := object
  flawed? := none

section

variable {α : Type} (form : Form α)

def Form.part (form : Form α) (p : Option α × Text) : Option (α × Text) :=
  (p.1.or form.flawed?).map fun value => (value, p.2)

def word? (word : String) (value : Json) (t : Text) : Option (α × Text) :=
  (word.toList.isPrefixOf? t).map fun rest => (form.leaf value, rest)

mutual

/-- A value behind blanks; `depth` more arrays and objects may be entered. -/
def value? : Nat → Nat → Text → Option (α × Text)
  | 0, _, _ => none
  | fuel + 1, depth, t =>
    match skipBlanks t with
    | 'n' :: rest => word? form "null" null ('n' :: rest)
    | 't' :: rest => word? form "true" (bool true) ('t' :: rest)
    | 'f' :: rest => word? form "false" (bool false) ('f' :: rest)
    | '"' :: rest =>
      (stringBody? fuel (some []) rest).bind fun p =>
        form.part (p.1.map fun t => form.leaf (text t), p.2)
    | '[' :: rest =>
      -- a form that keeps flawed parts reads on where nothing more may be entered
      if depth = 0 && form.flawed?.isNone then none
      else
        let items := match skipBlanks rest with
          | ']' :: rest => some ([], rest)
          | rest => items? fuel (depth - 1) rest
        items.bind fun p => form.part (if depth = 0 then none else form.array p.1, p.2)
    | '{' :: rest =>
      if depth = 0 && form.flawed?.isNone then none
      else
        let entries := match skipBlanks rest with
          | '}' :: rest => some (some [], rest)
          | rest => entries? fuel (depth - 1) rest
        entries.bind fun p => form.part (if depth = 0 then none else p.1.map form.object, p.2)
    | t => (number? t).bind fun p => form.part (p.1.map fun n => form.leaf (number n), p.2)

/-- The items of an array up to its closing bracket. -/
def items? : Nat → Nat → Text → Option (List α × Text)
  | 0, _, _ => none
  | fuel + 1, depth, t =>
    match value? fuel depth t with
    | none => none
    | some (item, rest) =>
      match skipBlanks rest with
      | ']' :: rest => some ([item], rest)
      | ',' :: rest => (items? fuel depth rest).map fun p => (item :: p.1, p.2)
      | _ => none

/-- The entries of an object up to its closing brace; a flawed key leaves none. -/
def entries? : Nat → Nat → Text → Option (Option (List (Text × α)) × Text)
  | 0, _, _ => none
  | fuel + 1, depth, t =>
    match skipBlanks t with
    | '"' :: rest =>
      match stringBody? fuel (some []) rest with
      | none => none
      | some (key, rest) =>
        match skipBlanks rest with
        | ':' :: rest =>
          match value? fuel depth rest with
          | none => none
          | some (value, rest) =>
            match skipBlanks rest with
            | '}' :: rest => some (key.map fun key => [(key, value)], rest)
            | ',' :: rest =>
              (entries? fuel depth rest).map fun p =>
                (do some (((← key), value) :: (← p.1)), p.2)
            | _ => none
        | _ => none
    | _ => none

end

/-- Read a text that holds one value and nothing else. -/
def read? (t : Text) : Option α :=
  -- every step of the reader takes a character, so the length bounds their number
  match value? form (t.length + 1) maxDepth t with
  | some (value, rest) => if (skipBlanks rest).isEmpty then some value else none
  | none => none

end

/-- Read a text that holds one JSON value and nothing else. -/
def parse? (t : Text) : Option Json := read? strict t

end ClassLint.Json
