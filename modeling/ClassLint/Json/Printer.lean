/-
  ClassLint.Json.Printer

  Writing JSON text: `compact` without any blank, `pretty` with one entry a
  line and two spaces for each level.  Inside strings the quote, the backslash
  and the control characters below U+0020 are escaped and nothing else.
-/

import ClassLint.Json.Decimal

namespace ClassLint.Json

/-- The digit for a value below 16, in lower case. -/
def hexChar (n : Nat) : Char :=
  Nat.digitChar n

def escapeChar (c : Char) : Text :=
  match c with
  | '"' => ['\\', '"']
  | '\\' => ['\\', '\\']
  | '\x08' => ['\\', 'b']
  | '\x0c' => ['\\', 'f']
  | '\n' => ['\\', 'n']
  | '\r' => ['\\', 'r']
  | '\t' => ['\\', 't']
  | c =>
    if c.toNat < 0x20 then
      ['\\', 'u', '0', '0', hexChar (c.toNat / 16), hexChar (c.toNat % 16)]
    else [c]

def quote (t : Text) : Text :=
  '"' :: t.flatMap escapeChar ++ ['"']

def renderNumber : JsonNumber → Text
  | .integer value => if value < 0 then '-' :: Text.ofNat value.natAbs else Text.ofNat value.natAbs
  | .double bits => Decimal.render bits

def renderScalar : Json → Text
  | null => "null".toList
  | bool true => "true".toList
  | bool false => "false".toList
  | number value => renderNumber value
  | text value => quote value
  | array _ => []
  | object _ => []

mutual

def compact : Json → Text
  | array [] => ['[', ']']
  | array (item :: rest) => '[' :: compact item ++ compactItems rest
  | object [] => ['{', '}']
  | object ((key, value) :: rest) =>
    '{' :: quote key ++ ':' :: compact value ++ compactEntries rest
  | scalar => renderScalar scalar

/-- The items behind the first. -/
def compactItems : List Json → Text
  | [] => [']']
  | item :: rest => ',' :: compact item ++ compactItems rest

/-- The entries behind the first. -/
def compactEntries : List (Text × Json) → Text
  | [] => ['}']
  | (key, value) :: rest => ',' :: quote key ++ ':' :: compact value ++ compactEntries rest

end

/-- A line break and the indentation of a level. -/
def newline (level : Nat) : Text :=
  '\n' :: List.replicate (2 * level) ' '

mutual

/-- A value with one item or entry a line, starting at the given level. -/
def prettyAt (level : Nat) : Json → Text
  | array [] => ['[', ']']
  | array (item :: rest) =>
    '[' :: newline (level + 1) ++ prettyAt (level + 1) item ++ prettyItems level rest
  | object [] => ['{', '}']
  | object ((key, value) :: rest) =>
    '{' :: newline (level + 1) ++ quote key ++ ':' :: ' ' :: prettyAt (level + 1) value
      ++ prettyEntries level rest
  | scalar => renderScalar scalar

/-- The items behind the first. -/
def prettyItems (level : Nat) : List Json → Text
  | [] => newline level ++ [']']
  | item :: rest =>
    ',' :: newline (level + 1) ++ prettyAt (level + 1) item ++ prettyItems level rest

/-- The entries behind the first. -/
def prettyEntries (level : Nat) : List (Text × Json) → Text
  | [] => newline level ++ ['}']
  | (key, value) :: rest =>
    ',' :: newline (level + 1) ++ quote key ++ ':' :: ' ' :: prettyAt (level + 1) value
      ++ prettyEntries level rest

end

def pretty (value : Json) : Text := prettyAt 0 value

end ClassLint.Json
