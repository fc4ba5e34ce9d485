/-
  ClassLint.Yaml.Lexeme

  The lexemes of a YAML file.  Indentation and the keys of mappings become
  lexemes of their own: the scan keeps the columns of the open block
  collections and, for each flow collection, the last place where a key could
  start; when a colon shows that one did, its lexeme is put in at that place.
-/

import ClassLint.Yaml.Tag

namespace ClassLint.Yaml

/-- The smallest part of a YAML file that has a meaning. -/
inductive Lexeme where
  | documentStart
  | documentEnd
  | blockSequenceStart
  | blockMappingStart
  | blockEnd
  | flowSequenceStart
  | flowSequenceEnd
  | flowMappingStart
  | flowMappingEnd
  | blockEntry
  | flowEntry
  | key
  | value
  | anchor (name : Text)
  | alias (name : Text)
  | tag (name : TagName)
  | directive (directive : Directive)
  /-- A scalar without any mark. -/
  | plain (value : Text)
  /-- A quoted or a block scalar. -/
  | quoted (value : Text)
deriving DecidableEq, Repr, Inhabited

/-- A place where a key could start. -/
structure KeyPlace where
  /-- There has to be a key, since a block mapping is open at this column. -/
  required : Bool
  /-- The number of lexemes before it. -/
  lexemes : Nat
  index : Nat
  line : Nat
  column : Nat
deriving DecidableEq, Repr

structure Scan where
  cursor : Cursor
  lexemes : Array Lexeme := #[]
  /-- The column of the innermost block collection, and -1 outside of all. -/
  indent : Int := -1
  /-- The columns of the collections around it, innermost first. -/
  outer : List Int := []
  /-- A key may start here. -/
  keyAllowed : Bool := true
  /-- The last place where a key could start. -/
  keyPlace : Option KeyPlace := none
  /-- Such a place for each of the collections around the innermost flow collection. -/
  outerPlaces : List (Option KeyPlace) := []
deriving Inhabited

namespace Scan

def inFlow (s : Scan) : Bool := !s.outerPlaces.isEmpty

def emit (s : Scan) (lexeme : Lexeme) (characters : Nat) : Scan :=
  { s with lexemes := s.lexemes.push lexeme, cursor := s.cursor.skip characters }

def insertAt (s : Scan) (place : Nat) (lexeme : Lexeme) : Scan :=
  { s with lexemes := s.lexemes.insertIdxIfInBounds place lexeme }

/-! ## Indentation -/

/-- Open a block collection at a column, unless one is open there or further in. -/
def openBlock (s : Scan) (column : Nat) (place : Nat) (lexeme : Lexeme) : Scan :=
  if s.inFlow || (column : Int) ≤ s.indent then s
  else { s.insertAt place lexeme with indent := column, outer := s.indent :: s.outer }

/-- Close the block collections that are open further in than a column. -/
def closeBlocksFrom (column : Int) : List Int → Scan → Scan
  | [], s => s
  | enclosing :: outer, s =>
    if s.indent ≤ column then s
    else closeBlocksFrom column outer
      { s with lexemes := s.lexemes.push .blockEnd, indent := enclosing, outer }

def closeBlocks (s : Scan) (column : Int) : Scan :=
  if s.inFlow then s else closeBlocksFrom column s.outer s

/-! ## Keys -/

/-- A key can no longer start at the last place for one. -/
def dropKey (s : Scan) : Option Scan :=
  match s.keyPlace with
  | some place => if place.required then none else some { s with keyPlace := none }
  | none => some s

/-- A key may start at the next character. -/
def offerKey (s : Scan) : Option Scan :=
  if s.keyAllowed then do
    let c := s.cursor
    let place : KeyPlace :=
      ⟨!s.inFlow && s.indent == c.column, s.lexemes.size, c.index, c.line, c.column⟩
    some { ← s.dropKey with keyPlace := some place }
  else some s

/-- A key lies on one line and has at most 1024 bytes. -/
def isStale (c : Cursor) (place : KeyPlace) : Bool :=
  place.line < c.line || place.index + 1024 < c.index

/-- Forget a place for a key that lies too far back. -/
def freshPlace (c : Cursor) : Option KeyPlace → Option (Option KeyPlace)
  | none => some none
  | some place =>
    if !isStale c place then some (some place)
    -- a key that has to start there has not come
    else if place.required then none
    else some none

def dropStaleKeys (s : Scan) : Option Scan := do
  let keyPlace ← freshPlace s.cursor s.keyPlace
  let outerPlaces ← s.outerPlaces.mapM (freshPlace s.cursor)
  some { s with keyPlace, outerPlaces }

/-! ## Lexemes -/

/-- The place behind a byte order mark at the start of a line. -/
def skipByteOrderMark (c : Cursor) : Cursor :=
  if c.column == 0 && c.sees '\ufeff' then c.next else c

/-- Go on to the next lexeme, over byte order marks, blanks, comments and line breaks. -/
def skipGap : Nat → Scan → Scan
  | 0, s => s
  | fuel + 1, s =>
    -- where a key may start in a block a tab is no blank
    let tabs := s.inFlow || !s.keyAllowed
    let c := skipByteOrderMark s.cursor
    let c := (c.skipWhile fun char => char == ' ' || (tabs && char == '\t')).skipComment
    if c.seesBreak then
      skipGap fuel { s with cursor := c.takeBreak.2, keyAllowed := s.keyAllowed || !s.inFlow }
    else { s with cursor := c }

def documentMark (s : Scan) (lexeme : Lexeme) : Option Scan := do
  let s ← (s.closeBlocks (-1)).dropKey
  some { s.emit lexeme 3 with keyAllowed := false }

def openFlow (s : Scan) (lexeme : Lexeme) : Option Scan := do
  let s ← s.offerKey
  some { s.emit lexeme 1 with
    keyAllowed := true, keyPlace := none, outerPlaces := s.keyPlace :: s.outerPlaces }

def closeFlow (s : Scan) (lexeme : Lexeme) : Option Scan := do
  let s ← s.dropKey
  let s := { s.emit lexeme 1 with keyAllowed := false }
  match s.outerPlaces with
  | [] => some s
  | place :: places => some { s with keyPlace := place, outerPlaces := places }

/-- A comma. -/
def flowEntry (s : Scan) : Option Scan := do
  some { (← s.dropKey).emit .flowEntry 1 with keyAllowed := true }

/-- A hyphen before an item. -/
def blockEntry (s : Scan) : Option Scan := do
  if !s.inFlow && !s.keyAllowed then none
  else
    let s ← (s.openBlock s.cursor.column s.lexemes.size .blockSequenceStart).dropKey
    some { s.emit .blockEntry 1 with keyAllowed := true }

/-- A question mark before a key. -/
def explicitKey (s : Scan) : Option Scan := do
  if !s.inFlow && !s.keyAllowed then none
  else
    let s ← (s.openBlock s.cursor.column s.lexemes.size .blockMappingStart).dropKey
    some { s.emit .key 1 with keyAllowed := !s.inFlow }

/-- A colon before a value. -/
def value (s : Scan) : Option Scan :=
  match s.keyPlace with
  | some place =>
    -- only now it is known that a key stands before the colon
    let s := (s.insertAt place.lexemes .key).openBlock place.column place.lexemes .blockMappingStart
    some { s.emit .value 1 with keyPlace := none, keyAllowed := false }
  | none =>
    if !s.inFlow && !s.keyAllowed then none
    else
      let s := s.openBlock s.cursor.column s.lexemes.size .blockMappingStart
      some { s.emit .value 1 with keyAllowed := !s.inFlow }

def isAnchorChar (c : Char) : Bool := Text.isNameChar c

def endsAnchor (c : Char) : Bool := "?:,]\x7d%@`".toList.contains c

/-- An anchor or an alias; its mark is next. -/
def anchor (s : Scan) (lexeme : Text → Lexeme) : Option Scan := do
  let s ← s.offerKey
  let name := s.cursor.next.rest.takeWhile isAnchorChar
  let c := s.cursor.next.skip name.length
  if name.isEmpty || !(c.wordEnds 0 || (c.peek 0).any endsAnchor) then none
  else some { s with lexemes := s.lexemes.push (lexeme name), cursor := c, keyAllowed := false }

/-- A tag; its mark is next. -/
def tag (fuel : Nat) (s : Scan) : Option Scan := do
  let s ← s.offerKey
  let (name, c) ← readTag fuel s.cursor
  if !(c.wordEnds 0 || (s.inFlow && c.sees ',')) then none
  else some { s with lexemes := s.lexemes.push (.tag name), cursor := c, keyAllowed := false }

/-- A directive; its mark is next. -/
def directive (fuel : Nat) (s : Scan) : Option Scan := do
  let s ← (s.closeBlocks (-1)).dropKey
  let (directive, c) ← readDirective fuel s.cursor
  some { s with lexemes := s.lexemes.push (.directive directive), cursor := c, keyAllowed := false }

/-- A block scalar; its mark is next. -/
def blockScalar (literal : Bool) (fuel : Nat) (s : Scan) : Option Scan := do
  let s ← s.dropKey
  let (text, c) ← readBlock literal s.indent fuel s.cursor
  some { s with lexemes := s.lexemes.push (.quoted text), cursor := c, keyAllowed := true }

/-- A quoted scalar; its quote is next. -/
def quotedScalar (quote : Char) (fuel : Nat) (s : Scan) : Option Scan := do
  let s ← s.offerKey
  let (text, c) ← readQuoted quote fuel [] s.cursor.next
  some { s with lexemes := s.lexemes.push (.quoted text), cursor := c, keyAllowed := false }

/-- A plain scalar; its first character is next. -/
def plainScalar (fuel : Nat) (s : Scan) : Option Scan := do
  let s ← s.offerKey
  let (text, broken, c) ← readPlain s.inFlow (s.indent + 1) fuel [] {} s.cursor
  some { s with lexemes := s.lexemes.push (.plain text), cursor := c, keyAllowed := broken }

def isMark (c : Char) : Bool := "-?:,[]\x7b\x7d#&*!|>'\"%@`".toList.contains c

def startsPlain (s : Scan) (char : Char) : Bool :=
  let c := s.cursor
  !(isSpace char || isBreak char || isMark char)
    || (char == '-' && !(c.peek 1).any isSpace)
    || (!s.inFlow && (char == '?' || char == ':') && !c.wordEnds 1)

def lexeme (char : Char) (fuel : Nat) (s : Scan) : Option Scan :=
  let c := s.cursor
  if c.seesDocumentMark then s.documentMark (if char = '-' then .documentStart else .documentEnd)
  else if c.column = 0 ∧ char = '%' then s.directive fuel
  else if char = '[' then s.openFlow .flowSequenceStart
  else if char = '{' then s.openFlow .flowMappingStart
  else if char = ']' then s.closeFlow .flowSequenceEnd
  else if char = '}' then s.closeFlow .flowMappingEnd
  else if char = ',' then s.flowEntry
  else if char = '-' && c.wordEnds 1 then s.blockEntry
  else if char = '?' && (s.inFlow || c.wordEnds 1) then s.explicitKey
  else if char = ':' && (s.inFlow || c.wordEnds 1) then s.value
  else if char = '*' then s.anchor .alias
  else if char = '&' then s.anchor .anchor
  else if char = '!' then s.tag fuel
  else if char = '|' && !s.inFlow then s.blockScalar true fuel
  else if char = '>' && !s.inFlow then s.blockScalar false fuel
  else if char = '\'' || char = '"' then s.quotedScalar char fuel
  else if s.startsPlain char then s.plainScalar fuel
  else none

/-- Read lexemes to the end of the text.  Each takes at least one character, and
    no step inside it takes none, so that the number of characters left, with
    some to spare, bounds all of them. -/
def run : Nat → Scan → Option (List Lexeme)
  | 0, _ => none
  | fuel + 1, s => do
    let s ← (skipGap fuel s).dropStaleKeys
    match s.cursor.rest with
    | [] => some (← (s.closeBlocks (-1)).dropKey).lexemes.toList
    -- a lexeme further out ends the blocks that are open further in
    | char :: _ => run fuel (← (s.closeBlocks s.cursor.column).lexeme char fuel)

end Scan

def lexemes? (t : Text) : Option (List Lexeme) :=
  if t.all isPrintable then Scan.run (t.length + 3) { cursor := ⟨t, 0, 0, 0⟩ } else none

end ClassLint.Yaml
