/-
  ClassLint.Glob.Pattern

  Patterns of file names.  `?` stands for any character, `*` for any text, and
  brackets for one character among those listed, or not among them behind a
  `!`.  `**` is a whole step of a path and stands for any number of directories.
-/

import ClassLint.Text

namespace ClassLint.Glob

inductive Cause where
  /-- More than two `*` in a row. -/
  | wildcards
  /-- A `**` that is only a part of a step. -/
  | recursiveWildcards
  /-- A bracket that is not closed. -/
  | invalidRange
deriving DecidableEq, Repr, Inhabited

/-- What is wrong with a pattern, and at which character. -/
structure Fault where
  position : Nat
  cause : Cause
deriving DecidableEq, Repr, Inhabited

def Cause.message : Cause → Text
  | wildcards => "wildcards are either regular `*` or recursive `**`".toList
  | recursiveWildcards => "recursive wildcards must form a single path component".toList
  | invalidRange => "invalid range pattern".toList

def Fault.message (f : Fault) : Text :=
  "Pattern syntax error near position ".toList ++ Text.ofNat f.position ++ ": ".toList
    ++ f.cause.message

/-- Characters in brackets: those from `first` to `last`. -/
structure Range where
  first : Char
  last : Char
deriving DecidableEq, Repr

inductive Part where
  | char (c : Char)
  | anyChar
  | anyText
  /-- Any number of directories. -/
  | anyDirectories
  | among (ranges : List Range)
  | notAmong (ranges : List Range)
deriving DecidableEq, Repr

/-! ## Reading -/

def ranges : Text → List Range
  | first :: '-' :: last :: rest => ⟨first, last⟩ :: ranges rest
  | c :: rest => ⟨c, c⟩ :: ranges rest
  | [] => []

/-- The text up to a closing bracket and the text behind it. -/
def splitBracket? : Text → Option (Text × Text)
  | [] => none
  | first :: rest =>
    -- the first character is listed even if it is a closing bracket
    if rest.contains ']' then
      some (first :: rest.takeWhile (· != ']'), (rest.dropWhile (· != ']')).tail)
    else none

/-- A bracket, read behind its opening. -/
def bracket? : Text → Option (Part × Text)
  | '!' :: rest => (splitBracket? rest).map fun p => (.notAmong (ranges p.1), p.2)
  | rest => (splitBracket? rest).map fun p => (.among (ranges p.1), p.2)

/-- Read a pattern from a position; `stepStarts` tells whether a step starts there. -/
def readFrom : Nat → Nat → Bool → Text → Except Fault (List Part)
  | 0, _, _, _ => .ok []
  | _ + 1, _, _, [] => .ok []
  | fuel + 1, position, stepStarts, c :: rest =>
    if c = '*' then
      let stars := ((c :: rest).takeWhile (· == '*')).length
      let behind := (c :: rest).dropWhile (· == '*')
      if 2 < stars then .error ⟨position + 2, .wildcards⟩
      else if stars = 1 then
        (readFrom fuel (position + 1) false behind).map (.anyText :: ·)
      -- two stars stand for directories, and have to be a whole step
      else if !stepStarts then .error ⟨position - 1, .recursiveWildcards⟩
      else match behind with
        | [] => .ok [.anyDirectories]
        | '/' :: behind =>
          (readFrom fuel (position + 3) true behind).map (.anyDirectories :: ·)
        | _ => .error ⟨position + 2, .recursiveWildcards⟩
    else if c = '[' then
      match bracket? rest with
      | some (part, behind) =>
        (readFrom fuel (position + (rest.length + 1 - behind.length)) false behind).map (part :: ·)
      | none => .error ⟨position, .invalidRange⟩
    else
      (readFrom fuel (position + 1) (c == '/') rest).map
        ((if c = '?' then .anyChar else .char c) :: ·)

def read (t : Text) : Except Fault (List Part) :=
  readFrom (t.length + 1) 0 true t

/-- The pattern that only a given text matches. -/
def escape (t : Text) : Text :=
  t.flatMap fun c => if "?*[]".toList.contains c then ['[', c, ']'] else [c]

/-! ## Matching -/

/-- From the row of the rest of a pattern, the row of the pattern with a part for
    one character in front. -/
def charRow (holds : Char → Bool) : Text → List Bool → List Bool
  | c :: name, _ :: row => (holds c && row.headD false) :: charRow holds name row
  | _, _ => [false]

/-- From the row of the rest of a pattern, the row of the pattern with a part for
    any text in front. -/
def textRow : List Bool → List Bool
  | [] => []
  | here :: row =>
    let behind := textRow row
    (here || behind.headD false) :: behind

def listed (ranges : List Range) (c : Char) : Bool :=
  ranges.any fun r => r.first ≤ c && c ≤ r.last

/-- For each suffix of a name, longest first, whether the pattern matches it. -/
def suffixRow (name : Text) : List Part → List Bool
  | [] => name.map (fun _ => false) ++ [true]
  | .char c :: rest => charRow (· == c) name (suffixRow name rest)
  | .anyChar :: rest => charRow (fun _ => true) name (suffixRow name rest)
  | .among ranges :: rest => charRow (listed ranges) name (suffixRow name rest)
  | .notAmong ranges :: rest => charRow (fun c => !listed ranges c) name (suffixRow name rest)
  | .anyText :: rest => textRow (suffixRow name rest)
  | .anyDirectories :: rest => textRow (suffixRow name rest)

def accepts (pattern : List Part) (name : Text) : Bool :=
  (suffixRow name pattern).headD false

end ClassLint.Glob
