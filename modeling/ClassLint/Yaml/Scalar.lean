/-
  ClassLint.Yaml.Scalar

  The text of scalars: between single or double quotes, in a block with an
  indentation of its own, or without any mark.

  Where a scalar goes over several lines, a single line break between two of
  them counts as a space, and of several the first counts for nothing; blanks
  around them are dropped.
-/

import ClassLint.Yaml.Cursor

namespace ClassLint.Yaml

/-! ## Gaps between words -/

/-- Blanks and line breaks inside a scalar. -/
structure Gap where
  /-- The blanks, as long as there is no line break. -/
  blanks : Text := []
  /-- The first line break. -/
  leading : Option Text := none
  /-- The line breaks behind the first. -/
  trailing : Text := []
deriving DecidableEq, Repr, Inhabited

def foldBreaks (leading trailing : Text) : Text :=
  if leading.head? = some '\n' then (if trailing.isEmpty then [' '] else trailing)
  else leading ++ trailing

def Gap.text (g : Gap) : Text :=
  match g.leading with
  | none => g.blanks
  | some leading => foldBreaks leading g.trailing

/-- Read a gap to its end.  A tab below the given column of a further line is
    an error. -/
def readGap (least : Int) : Nat → Gap → Cursor → Option (Gap × Cursor)
  | 0, _, _ => none
  | fuel + 1, g, c =>
    match c.rest with
    | [] => some (g, c)
    | char :: _ =>
      if isSpace char then
        match g.leading with
        | none => readGap least fuel { g with blanks := g.blanks ++ [char] } c.next
        | some _ =>
          if char = '\t' ∧ (c.column : Int) < least then none else readGap least fuel g c.next
      else if isBreak char then
        let (ending, c) := c.takeBreak
        match g.leading with
        | none => readGap least fuel { g with blanks := [], leading := some ending } c
        | some _ => readGap least fuel { g with trailing := g.trailing ++ ending } c
      else some (g, c)

/-! ## Quoted scalars -/

def escapeLetter? : Char → Option Char
  | '0' => some '\x00'
  | 'a' => some '\x07'
  | 'b' => some '\x08'
  | 't' => some '\t'
  | '\t' => some '\t'
  | 'n' => some '\n'
  | 'v' => some '\x0b'
  | 'f' => some '\x0c'
  | 'r' => some '\r'
  | 'e' => some '\x1b'
  | ' ' => some ' '
  | '"' => some '"'
  | '/' => some '/'
  | '\\' => some '\\'
  | 'N' => some '\u0085'
  | '_' => some '\u00a0'
  | 'L' => some '\u2028'
  | 'P' => some '\u2029'
  | _ => none

/-- The number of hexadecimal digits behind the letter of a numeric escape. -/
def escapeDigits? : Char → Option Nat
  | 'x' => some 2
  | 'u' => some 4
  | 'U' => some 8
  | _ => none

def hexValue? (c : Char) : Option Nat :=
  if '0' ≤ c ∧ c ≤ '9' then some (c.toNat - '0'.toNat)
  else if 'a' ≤ c ∧ c ≤ 'f' then some (c.toNat - 'a'.toNat + 10)
  else if 'A' ≤ c ∧ c ≤ 'F' then some (c.toNat - 'A'.toNat + 10)
  else none

/-- The character with a number; surrogates and numbers beyond the last have none. -/
def character? (n : Nat) : Option Char :=
  if (0xD800 ≤ n ∧ n ≤ 0xDFFF) ∨ 0x10FFFF < n then none else some (Char.ofNat n)

/-- The character of an escape, and the place behind it; the backslash is next. -/
def readEscape (c : Cursor) : Option (Char × Cursor) := do
  let letter ← c.peek 1
  let c := c.skip 2
  match escapeLetter? letter with
  | some char => some (char, c)
  | none =>
    let digits := c.rest.take (← escapeDigits? letter)
    if digits.length < (← escapeDigits? letter) then none
    else
      let n ← digits.foldlM (fun n d => (hexValue? d).map (n * 16 + ·)) 0
      some (← character? n, c.skip digits.length)

/-- The rest of a quoted scalar; `read` is what was read, last first. -/
def readQuoted (quote : Char) : Nat → Text → Cursor → Option (Text × Cursor)
  | 0, _, _ => none
  | fuel + 1, read, c =>
    match c.rest with
    | [] => none
    | char :: _ =>
      if c.seesDocumentMark then none
      else if isSpace char || isBreak char then do
        let (g, c) ← readGap 0 fuel {} c
        readQuoted quote fuel (g.text.reverse ++ read) c
      else if char = quote then
        if quote = '\'' ∧ c.peek 1 = some '\'' then readQuoted quote fuel ('\'' :: read) (c.skip 2)
        else some (read.reverse, c.next)
      else if quote = '"' ∧ char = '\\' then
        if c.next.seesBreak then do
          let (g, c) ← readGap 0 fuel { leading := some [] } c.next.takeBreak.2
          readQuoted quote fuel (g.text.reverse ++ read) c
        else do
          let (char, c) ← readEscape c
          readQuoted quote fuel (char :: read) c
      else readQuoted quote fuel (char :: read) c.next

/-! ## Plain scalars -/

/-- A character that has a meaning of its own inside a flow collection. -/
def isFlowMark (c : Char) : Bool := c == ',' || c == '[' || c == ']' || c == '{' || c == '}'

/-- The characters of a plain scalar up to a blank or a mark that ends it. -/
def readWord (inFlow : Bool) : Nat → Text → Cursor → Option (Text × Cursor)
  | 0, _, _ => none
  | fuel + 1, read, c =>
    match c.rest with
    | [] => some (read.reverse, c)
    | char :: _ =>
      if isSpace char || isBreak char then some (read.reverse, c)
      else if inFlow && char == ':' && (c.peek 1).any (fun d => isFlowMark d || d == '?') then none
      else if (char == ':' && c.wordEnds 1) || (inFlow && isFlowMark char) then
        some (read.reverse, c)
      else readWord inFlow fuel (char :: read) c.next

/-- A plain scalar, and whether a line break stands behind it.  The lines behind
    the first have to be indented to the column `least`, except in a flow
    collection. -/
def readPlain (inFlow : Bool) (least : Int) :
    Nat → Text → Gap → Cursor → Option (Text × Bool × Cursor)
  | 0, _, _, _ => none
  | fuel + 1, read, before, c =>
    if c.seesDocumentMark || c.sees '#' then some (read, before.leading.isSome, c)
    else do
      let (word, c) ← readWord inFlow fuel [] c
      let (read, before) := if word.isEmpty then (read, before) else (read ++ before.text ++ word, {})
      if !(c.seesSpace || c.seesBreak) then some (read, before.leading.isSome, c)
      else
        let (before, c) ← readGap least fuel before c
        if !inFlow && (c.column : Int) < least then some (read, before.leading.isSome, c)
        else readPlain inFlow least fuel read before c

/-! ## Block scalars -/

/-- What happens to the line breaks at the end of a block. -/
inductive Chomping where
  /-- None is kept. -/
  | strip
  /-- One is kept. -/
  | clip
  /-- All are kept. -/
  | keep
deriving DecidableEq, Repr, Inhabited

def readChomping (c : Cursor) : Option Chomping × Cursor :=
  if c.sees '+' then (some .keep, c.next)
  else if c.sees '-' then (some .strip, c.next)
  else (none, c)

/-- The indentation mark, if one is next: a digit that is no zero. -/
def readIndentation (c : Cursor) : Option (Option Nat × Cursor) :=
  match c.peek 0 with
  | some char =>
    if !char.isDigit then some (none, c)
    else if char = '0' then none
    else some (some (char.toNat - '0'.toNat), c.next)
  | none => some (none, c)

def readBlockMarks (c : Cursor) : Option (Chomping × Option Nat × Cursor) := do
  match readChomping c with
  | (some chomping, c) =>
    let (indentation, c) ← readIndentation c
    some (chomping, indentation, c)
  | (none, c) =>
    match ← readIndentation c with
    | (some indentation, c) =>
      let (chomping, c) := readChomping c
      some (chomping.getD .clip, some indentation, c)
    | (none, c) => some (.clip, none, c)

/-- The empty lines before a line of a block, and the greatest indentation seen
    among them.  The indentation of the block may not be known yet. -/
def readEmptyLines (indent : Option Nat) :
    Nat → Nat → Text → Cursor → Option (Nat × Text × Cursor)
  | 0, _, _, _ => none
  | fuel + 1, greatest, read, c =>
    let inMargin (c : Cursor) : Bool := indent.all fun n => c.column < n
    if inMargin c && c.sees ' ' then readEmptyLines indent fuel greatest read c.next
    else if inMargin c && c.sees '\t' then none
    else
      let greatest := max greatest c.column
      if c.seesBreak then
        let (ending, c) := c.takeBreak
        readEmptyLines indent fuel greatest (read ++ ending) c
      else some (greatest, read, c)

/-- What the lines read so far of a block come to. -/
structure BlockText where
  text : Text := []
  /-- The break behind the last line. -/
  leading : Text := []
  /-- The empty lines behind it. -/
  trailing : Text := []
  /-- The last line starts with a blank. -/
  startsBlank : Bool := false
deriving Inhabited

def readBlockLines (literal : Bool) (indent : Nat) :
    Nat → BlockText → Cursor → Option (BlockText × Cursor)
  | 0, _, _ => none
  | fuel + 1, b, c =>
    if c.column ≠ indent ∨ c.rest.isEmpty then some (b, c)
    else do
      let startsBlank := c.seesSpace
      let separator :=
        if !literal && b.leading.head? == some '\n' && !b.startsBlank && !startsBlank then
          if b.trailing.isEmpty then [' '] else b.trailing
        else b.leading ++ b.trailing
      let line := c.rest.takeWhile fun char => !isBreak char
      let (ending, c) := (c.skipWhile fun char => !isBreak char).takeBreak
      let (_, trailing, c) ← readEmptyLines (some indent) fuel 0 [] c
      readBlockLines literal indent fuel
        ⟨b.text ++ separator ++ line, ending, trailing, startsBlank⟩ c

/-- A block scalar inside an indentation; its mark is next. -/
def readBlock (literal : Bool) (outer : Int) (fuel : Nat) (c : Cursor) : Option (Text × Cursor) := do
  let (chomping, indentation, c) ← readBlockMarks c.next
  let c := (c.skipWhile isSpace).skipComment
  if !c.lineEnds then none
  else
    let c := c.takeBreak.2
    let known := indentation.map fun n => outer.toNat + n
    let (greatest, trailing, c) ← readEmptyLines known fuel 0 [] c
    let indent := known.getD (max greatest (max (outer + 1).toNat 1))
    let (b, c) ← readBlockLines literal indent fuel { trailing } c
    some (b.text ++ (if chomping = .strip then [] else b.leading)
      ++ (if chomping = .keep then b.trailing else []), c)

end ClassLint.Yaml
