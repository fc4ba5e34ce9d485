/-
  ClassLint.Yaml.Cursor

  A place in the text of a YAML file: what is left to read, and how far the
  reading has come.  Lines end with a line feed, a carriage return, both in
  this order, or one of three Unicode separators.
-/

import ClassLint.Text

namespace ClassLint.Yaml

structure Cursor where
  rest : Text
  /-- The number of bytes read. -/
  index : Nat
  /-- The number of lines ended. -/
  line : Nat
  /-- The number of characters read of this line. -/
  column : Nat
deriving DecidableEq, Repr, Inhabited

/-- A space or a tab. -/
def isSpace (c : Char) : Bool := c == ' ' || c == '\t'

def isBreak (c : Char) : Bool :=
  c == '\n' || c == '\r' || c == '\u0085' || c == '\u2028' || c == '\u2029'

def isPrintable (c : Char) : Bool :=
  let n := c.toNat
  n = 0x09 || n = 0x0A || n = 0x0D || (0x20 ≤ n && n ≤ 0x7E) || n = 0x85
    || (0xA0 ≤ n && n ≤ 0xD7FF) || (0xE000 ≤ n && n ≤ 0xFFFD) || 0x10000 ≤ n

namespace Cursor

def peek (c : Cursor) (ahead : Nat) : Option Char := c.rest[ahead]?

def sees (c : Cursor) (char : Char) : Bool := c.peek 0 == some char

def seesSpace (c : Cursor) : Bool := (c.peek 0).any isSpace

def seesBreak (c : Cursor) : Bool := (c.peek 0).any isBreak

/-- A space, a tab, the end of the line or the end of the text is so many places ahead. -/
def wordEnds (c : Cursor) (ahead : Nat) : Bool :=
  match c.peek ahead with
  | none => true
  | some char => isSpace char || isBreak char

/-- Nothing is left of the line. -/
def lineEnds (c : Cursor) : Bool := c.rest.isEmpty || c.seesBreak

/-- The line starts with a mark between two documents. -/
def seesDocumentMark (c : Cursor) : Bool :=
  c.column == 0 && ("---".toList.isPrefixOf c.rest || "...".toList.isPrefixOf c.rest)
    && c.wordEnds 3

/-- The place behind the next character, which does not end the line. -/
def next (c : Cursor) : Cursor :=
  match c.rest with
  | [] => c
  | char :: rest => ⟨rest, c.index + char.utf8Size, c.line, c.column + 1⟩

def skip : Nat → Cursor → Cursor
  | 0, c => c
  | n + 1, c => skip n c.next

/-- The end of the line as it counts for a text, and the place behind it. -/
def takeBreak (c : Cursor) : Text × Cursor :=
  match c.rest with
  | '\r' :: '\n' :: rest => (['\n'], ⟨rest, c.index + 2, c.line + 1, 0⟩)
  | char :: rest =>
    if !isBreak char then ([], c)
    else
      (if char == '\u2028' || char == '\u2029' then [char] else ['\n'],
        ⟨rest, c.index + char.utf8Size, c.line + 1, 0⟩)
  | [] => ([], c)

/-- The place behind all characters of a kind that are next on the line. -/
def skipWhile (holds : Char → Bool) (c : Cursor) : Cursor :=
  let run := c.rest.takeWhile holds
  ⟨c.rest.dropWhile holds, c.index + Text.byteLength run, c.line, c.column + run.length⟩

def skipComment (c : Cursor) : Cursor :=
  if c.sees '#' then c.skipWhile (fun char => !isBreak char) else c

end Cursor

end ClassLint.Yaml
