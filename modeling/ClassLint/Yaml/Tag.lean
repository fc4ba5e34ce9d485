/-
  ClassLint.Yaml.Tag

  Tags, and the directives that may stand before a document.

  A tag is written out between angle brackets, or as a handle and the rest
  behind it; a directive says what a handle stands for.  Bytes may be written
  as a percent sign and two hexadecimal digits, as long as they have the form
  of UTF-8; a byte of zero ends the tag.
-/

import ClassLint.Yaml.Scalar

namespace ClassLint.Yaml

/-- A tag as it is written. -/
structure TagName where
  /-- What is to be looked up; there is none before a tag that is written out. -/
  handle : Text
  rest : List UInt8
deriving DecidableEq, Repr, Inhabited

inductive Directive where
  /-- The version of the format. -/
  | version
  /-- A handle stands for this text. -/
  | handle (name : Text) (text : List UInt8)
deriving DecidableEq, Repr, Inhabited

/-! ## The characters of tags -/

def isTagChar (c : Char) : Bool :=
  Text.isNameChar c || ";/?:@&=+$.!~*'()".toList.contains c

/-- A character that may stand in a tag that is written out. -/
def isVerbatimChar (c : Char) : Bool := isTagChar c || c == ',' || c == '[' || c == ']'

/-- A byte behind a percent sign. -/
def readByte (c : Cursor) : Option (Nat × Cursor) :=
  match c.rest with
  | '%' :: high :: low :: _ => do some ((← hexValue? high) * 16 + (← hexValue? low), c.skip 3)
  | _ => none

/-- The number of bytes behind the first byte of a character. -/
def trailingBytes? (lead : Nat) : Option Nat :=
  if lead < 0x80 then some 0
  else if 0xC0 ≤ lead ∧ lead < 0xE0 then some 1
  else if 0xE0 ≤ lead ∧ lead < 0xF0 then some 2
  else if 0xF0 ≤ lead ∧ lead < 0xF8 then some 3
  else none

/-- So many trailing bytes; `read` is what was read before them. -/
def readTrailingBytes : Nat → List UInt8 → Cursor → Option (List UInt8 × Cursor)
  | 0, read, c => some (read, c)
  | n + 1, read, c => do
    let (byte, c) ← readByte c
    if 0x80 ≤ byte ∧ byte < 0xC0 then readTrailingBytes n (read ++ [byte.toUInt8]) c else none

def readTagBytes (holds : Char → Bool) :
    Nat → List UInt8 → Cursor → Option (List UInt8 × Cursor)
  | 0, _, _ => none
  | fuel + 1, read, c =>
    match c.rest with
    | [] => some (read, c)
    | char :: _ =>
      if char = '%' then do
        let (lead, c) ← readByte c
        let (read, c) ← readTrailingBytes (← trailingBytes? lead) (read ++ [lead.toUInt8]) c
        readTagBytes holds fuel read c
      else if holds char then readTagBytes holds fuel (read ++ [char.toNat.toUInt8]) c.next
      else some (read, c)

def readSomeTagBytes (holds : Char → Bool) (fuel : Nat) (c : Cursor) :
    Option (List UInt8 × Cursor) := do
  let (read, c) ← readTagBytes holds fuel [] c
  if read.isEmpty then none else some (read, c)

def untilZero (bytes : List UInt8) : List UInt8 := bytes.takeWhile (· != 0)

/-! ## Tags -/

/-- A handle; its mark is next.  It may have a second mark at its end. -/
def readHandle (c : Cursor) : Text × Cursor :=
  let name := c.next.rest.takeWhile Text.isNameChar
  let c := c.next.skip name.length
  if c.sees '!' then ('!' :: name ++ ['!'], c.next) else ('!' :: name, c)

/-- The handle has a mark at its start and another at its end. -/
def isClosedHandle (handle : Text) : Bool := 1 < handle.length && handle.getLast? == some '!'

/-- A tag; its mark is next.  A mark alone is a tag that is written out. -/
def readTag (fuel : Nat) (c : Cursor) : Option (TagName × Cursor) :=
  if c.peek 1 = some '<' then do
    let (bytes, c) ← readSomeTagBytes isVerbatimChar fuel (c.skip 2)
    if c.sees '>' then some (⟨[], untilZero bytes⟩, c.next) else none
  else
    let (handle, c) := readHandle c
    if isClosedHandle handle then do
      let (bytes, c) ← readSomeTagBytes isTagChar fuel c
      some (⟨handle, untilZero bytes⟩, c)
    else do
      let (bytes, c) ← readTagBytes isTagChar fuel (Text.bytes handle.tail) c
      let rest := untilZero bytes
      some (if rest.isEmpty then ⟨[], Text.bytes ['!']⟩ else ⟨['!'], rest⟩, c)

/-! ## Directives -/

/-- A part of a version: at most nine digits. -/
def readVersionNumber (c : Cursor) : Option (Nat × Cursor) :=
  let digits := c.rest.takeWhile Char.isDigit
  if digits.isEmpty ∨ 9 < digits.length then none
  else
    some (digits.foldl (fun n d => n * 10 + (d.toNat - '0'.toNat)) 0, c.skip digits.length)

/-- The version 1.1 or 1.2. -/
def readVersion (c : Cursor) : Option Cursor := do
  let (major, c) ← readVersionNumber c
  if !c.sees '.' then none
  else
    let (minor, c) ← readVersionNumber c.next
    if major = 1 ∧ (minor = 1 ∨ minor = 2) then some c else none

def readHandleText (fuel : Nat) (c : Cursor) : Option (Directive × Cursor) :=
  if !c.sees '!' then none
  else
    let (handle, c) := readHandle c
    if !(handle = ['!'] || isClosedHandle handle) || !c.seesSpace then none
    else do
      let (bytes, c) ← readSomeTagBytes isVerbatimChar fuel (c.skipWhile isSpace)
      if c.wordEnds 0 then some (.handle handle (untilZero bytes), c) else none

/-- A directive with its line; its mark is next. -/
def readDirective (fuel : Nat) (c : Cursor) : Option (Directive × Cursor) := do
  let name := c.next.rest.takeWhile Text.isNameChar
  let c := c.next.skip name.length
  if !c.wordEnds 0 then none
  else
    let c := c.skipWhile isSpace
    let (directive, c) ←
      if name = "YAML".toList then (readVersion c).map fun c => (Directive.version, c)
      else if name = "TAG".toList then readHandleText fuel c
      else none
    let c := (c.skipWhile isSpace).skipComment
    if c.lineEnds then some (directive, c.takeBreak.2) else none

end ClassLint.Yaml
