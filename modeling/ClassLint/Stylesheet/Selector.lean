/-
  ClassLint.Stylesheet.Selector

  Selectors of nested rules.  A rule's prelude is a list of selectors between
  top-level commas; inside another rule each of them is combined with each of
  the enclosing selectors, at the place of `&` or behind them.  A class
  selector is a dot and a name, in which a backslash takes the next character
  as it is.
-/

import ClassLint.Text

namespace ClassLint.Selector

/-! ## Lists of selectors -/

/-- The depth of brackets behind a character.  Stray closing brackets take it
    below zero.  It has no bound here, where the program counts in 32 bits: a text
    would have to hold 2³¹ brackets of one kind before the two differ. -/
def depthAfter (depth : Int) (c : Char) : Int :=
  if c = '(' ∨ c = '[' then depth + 1
  else if c = ')' ∨ c = ']' then depth - 1
  else depth

/-- The pieces between the commas at depth zero, empty ones included. -/
def splitTopLevel (depth : Int) : Text → List Text
  | [] => [[]]
  | c :: rest =>
    if c = ',' ∧ depth = 0 then [] :: splitTopLevel depth rest
    else Text.extendFirst c (splitTopLevel (depthAfter depth c) rest)

/-- The selectors of a prelude, trimmed, without empty ones. -/
def parts (prelude : Text) : List Text :=
  ((splitTopLevel 0 prelude).map Text.trim).filter fun p => !p.isEmpty

/-! ## Nesting -/

/-- One selector inside an enclosing one: in place of each `&`, or behind it. -/
def nest (parent part : Text) : Text :=
  if part.contains '&' then Text.substitute '&' parent part
  else parent ++ ' ' :: part

/-- The selectors of a prelude inside enclosing selectors: every part with every
    parent. -/
def flatten (prelude : Text) (parents : List Text) : List Text :=
  -- at the outside `&` stands for nothing
  if parents.isEmpty then (parts prelude).map (Text.substitute '&' [])
  else (parts prelude).flatMap fun part => parents.map fun parent => nest parent part

/-! ## Class names -/

def isWide (c : Char) : Bool := 0x80 ≤ c.toNat

/-- A character that may start a class name, apart from a leading hyphen. -/
def isStart (c : Char) : Bool := c.isAlpha || c == '_' || isWide c

/-- A character that may continue a class name. -/
def isInside (c : Char) : Bool := Text.isNameChar c || isWide c

/-- The characters that continue a class name, escapes resolved, with the number
    of characters they are written with. -/
def continued : Text → Text × Nat
  | '\\' :: c :: rest =>
    -- a backslash continues nothing at the end of a line, nor of the text
    if c = '\n' then ([], 0)
    else let (name, length) := continued rest; (c :: name, length + 2)
  | c :: rest =>
    if isInside c then let (name, length) := continued rest; (c :: name, length + 1)
    else ([], 0)
  | [] => ([], 0)

/-- A class name that starts here, behind an optional hyphen. -/
def started? : Text → Option (Text × Nat)
  | '\\' :: c :: rest =>
    if c = '\n' then none
    else let (name, length) := continued rest; some (c :: name, length + 2)
  | c :: rest =>
    if isStart c then let (name, length) := continued rest; some (c :: name, length + 1)
    else none
  | [] => none

/-- The class name behind a dot, with the number of characters it is written with. -/
def name? : Text → Option (Text × Nat)
  | '-' :: rest => (started? rest).map fun p => ('-' :: p.1, p.2 + 1)
  | t => started? t

/-- The class names of a selector, where the next `skip` characters are already read. -/
def classesFrom (skip : Nat) : Text → List Text
  | [] => []
  | c :: rest =>
    match skip with
    | n + 1 => classesFrom n rest
    | 0 =>
      if c = '.' then
        match name? rest with
        | some (name, length) => name :: classesFrom length rest
        | none => classesFrom 0 rest
      else classesFrom 0 rest

def classes (selector : Text) : List Text :=
  classesFrom 0 selector

end ClassLint.Selector
