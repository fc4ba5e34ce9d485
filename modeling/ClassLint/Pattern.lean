/-
  ClassLint.Pattern

  Name patterns, as written in the allow, block and ignore lists.  A pattern
  without `*` stands for itself; each `*` stands for any text on one line.

  A pattern with `*` is compiled to its parts: the pieces between wildcards, and
  one wildcard for each run of them.  The parts are matched by computing, from
  the last to the first, at which positions of the name the rest of the parts
  matches the rest of the name.  That takes one row of Booleans per character,
  however many wildcards there are.
-/

import ClassLint.Text

namespace ClassLint

inductive NamePattern.Part where
  /-- This very text. -/
  | exactly (text : Text)
  /-- Any text on one line. -/
  | anything
deriving DecidableEq, Repr, Inhabited

inductive NamePattern where
  /-- Only this very name matches. -/
  | literal (name : Text)
  /-- The text holds at least one `*`; the parts are what it was compiled to. -/
  | wildcard (source : Text) (parts : List NamePattern.Part)
deriving DecidableEq, Repr, Inhabited

namespace NamePattern

/-! ## Compiling wildcards -/

/-- The parts of a pattern as far as it has been compiled. -/
structure Assembly where
  parts : List Part
  /-- The last part is a wildcard. -/
  afterStar : Bool
deriving DecidableEq, Repr, Inhabited

def Assembly.start : Assembly := ⟨[], false⟩

/-- Compile the next piece between two `*`. -/
def Assembly.add (a : Assembly) (piece : Text) : Assembly :=
  if piece.isEmpty then
    -- an end of the pattern, or the inside of a run of `*`
    if a.afterStar then a else ⟨a.parts ++ [.anything], true⟩
  else
    -- in front of a piece that is not the first there has to be a wildcard
    let before := if !a.afterStar && !a.parts.isEmpty then a.parts ++ [.anything] else a.parts
    ⟨before ++ [.exactly piece], false⟩

/-- The end of the pattern: a `*` there has to have its wildcard. -/
def Assembly.finish (a : Assembly) (source : Text) : List Part :=
  if source.getLast? == some '*' && !a.afterStar then a.parts ++ [.anything] else a.parts

def partsOf (source : Text) : List Part :=
  ((Text.split (· == '*') source).foldl Assembly.add .start).finish source

/-! ## Reading a pattern -/

/-- The greatest length of a pattern, in UTF-8 bytes. -/
def maxBytes : Nat := 256

/-- Whether the matcher that parts are compiled to is small enough.  It may take 2¹⁶
    bytes, of which a wildcard takes about 2¹⁰ and a character far less; so the
    number of wildcards is what counts, and between 50 and 90 of them it is the
    rest of the pattern that decides whether a real matcher still fits.  Nothing
    that is proved about patterns depends on where this line is drawn. -/
def hasFewWildcards (parts : List Part) : Bool := parts.count .anything ≤ 64

/-- Every character may occur in a class name: none is blank or a control character. -/
def isClean (source : Text) : Bool :=
  source.all fun c => !(Text.isBlank c || Text.isControl c)

/-- Read a pattern.  Empty, oversized and unclean ones are rejected, and so are
    those whose matcher does not fit. -/
def compile? (source : Text) (fits : List Part → Bool := hasFewWildcards) :
    Option NamePattern :=
  if source.isEmpty || maxBytes < Text.byteLength source || !isClean source then none
  else if !source.contains '*' then some (literal source)
  else
    let parts := partsOf source
    if fits parts then some (wildcard source parts) else none

def source : NamePattern → Text
  | literal name => name
  | wildcard source _ => source

def isWildcard : NamePattern → Bool
  | literal _ => false
  | wildcard .. => true

/-! ## Matching -/

/-- From the row of the rest of the parts, the row with a character in front: the
    name has that character here and the rest matches behind it. -/
def literalRow (c : Char) : Text → List Bool → List Bool
  | d :: name, _ :: row => (d == c && row.headD false) :: literalRow c name row
  | _, _ => [false]

/-- From the row of the rest of the parts, the row with a wildcard in front: the
    rest matches here, or the wildcard takes one more character that does not end
    the line. -/
def wildcardRow : Text → List Bool → List Bool
  | d :: name, here :: row =>
    let behind := wildcardRow name row
    (here || (d != '\n' && behind.headD false)) :: behind
  | _, row => row

/-- For each suffix of the name, longest first, whether the parts match it. -/
def suffixRow (name : Text) : List Part → List Bool
  | [] => name.map (fun _ => false) ++ [true]
  | .exactly text :: rest => text.foldr (literalRow · name) (suffixRow name rest)
  | .anything :: rest => wildcardRow name (suffixRow name rest)

def accepts (p : NamePattern) (name : Text) : Bool :=
  match p with
  | literal expected => expected == name
  | wildcard _ parts => (suffixRow name parts).headD false

/-! ## Lists of patterns -/

/-- Read a list of patterns, leaving out the rejected ones. -/
def compileAll (sources : List Text) : List NamePattern :=
  sources.filterMap fun source => compile? source

def anyAccepts (patterns : List NamePattern) (name : Text) : Bool :=
  patterns.any fun p => p.accepts name

end NamePattern

end ClassLint
