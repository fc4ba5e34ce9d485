/-
  ClassLint.Yaml

  Reading YAML.  A file holds one document; a file without any is blank.

  Anchors mark values, and an alias stands for the value with its mark.  The
  mark of an anchor is the number of distinct names of anchors before it, so
  that two anchors may have one mark where a name is used again; the value that
  starts last then has the mark.
-/

import ClassLint.Document.Decode
import ClassLint.Yaml.Lexeme

namespace ClassLint.Yaml

/-- What is left to read, and what was said before that counts for it. -/
structure Rest where
  lexemes : List Lexeme
  /-- What the handles of tags stand for. -/
  handles : List (Text × List UInt8)
  /-- The mark that the last anchor of each name has. -/
  anchors : Std.TreeMap Text Nat := ∅
  /-- The marked values in the order in which they start, as far as they are read. -/
  marked : Array (Nat × Document) := #[]
deriving Inhabited

/-- Reading takes lexemes and may fail. -/
abbrev Read (α : Type) := StateT Rest Option α

/-- The next lexeme, which stays. -/
def peek : Read (Option Lexeme) := do
  return (← get).lexemes.head?

def drop : Read Unit :=
  modify fun r => { r with lexemes := r.lexemes.tail }

def fail {α : Type} : Read α := fun _ => none

/-- The next lexeme is one of these. -/
def sees (lexemes : List Lexeme) : Read Bool := do
  return (← peek).any lexemes.contains

def accept (lexeme : Lexeme) : Read Bool := do
  if ← sees [lexeme] then
    drop
    return true
  else return false

/-- Take the comma that stands before each item but the first. -/
def acceptSeparator (first : Bool) : Read Bool :=
  if first then return true else accept .flowEntry

/-! ## Anchors and tags -/

def anchor? : Read (Option Text) := do
  match ← peek with
  | some (.anchor name) =>
    drop
    return some name
  | _ => return none

/-- The tag that is next, if one is, as it is spelled without a handle. -/
def tag? : Read (Option (List UInt8)) := do
  match ← peek with
  | some (.tag name) =>
    drop
    if name.handle.isEmpty then return some name.rest
    else
      match (← get).handles.lookup name.handle with
      | some text => return some (text ++ name.rest)
      | none => fail
  | _ => return none

/-- The anchor and the tag of the next value, in either order. -/
def properties : Read (Option Text × Option (List UInt8)) := do
  match ← anchor? with
  | some name => return (some name, ← tag?)
  | none =>
    let tag ← tag?
    return (← anchor?, tag)

/-- A value with its tag. -/
def withTag (tag : Option (List UInt8)) (value : Document) : Document :=
  let isScalar := match value with
    | .plain _ | .text _ => true
    | _ => false
  match tag with
  | none => value
  | some bytes =>
    -- a mark alone is no tag of a scalar
    if isScalar && bytes == Text.bytes ['!'] then value
    else
      match Tag.ofBytes? bytes with
      | some tag => .tagged tag value
      | none => value

/-- A value with an anchor starts: the place of its mark. -/
def openMark (name : Text) : Read Nat := do
  let r ← get
  -- the number of names so far, for a name that returns as well
  let mark := r.anchors.size
  set { r with anchors := r.anchors.insert name mark, marked := r.marked.push (mark, .flawed) }
  return r.marked.size

/-- A value whose mark has this place is read. -/
def closeMark (place : Nat) (value : Document) : Read Unit :=
  modify fun r => { r with marked := r.marked.modify place fun e => (e.1, value) }

/-! ## Values -/

mutual

/-- A value.  Inside a block, a block collection may follow. -/
def value (block indentless : Bool) : Nat → Read Document
  | 0 => fail
  | fuel + 1 => do
    if let some (.alias name) ← peek then
      match (← get).anchors[name]? with
      | some mark =>
        drop
        return .alias mark
      | none => fail
    else
      let (anchor, tag) ← properties
      let place ← anchor.mapM openMark
      let value := withTag tag (← content block indentless (anchor.isSome || tag.isSome) fuel)
      if let some place := place then closeMark place value
      return value

/-- A value behind its anchor and its tag. -/
def content (block indentless mayBlank : Bool) : Nat → Read Document
  | 0 => fail
  | fuel + 1 => do
    match ← peek with
    | some (.plain text) =>
      drop
      return .plain text
    | some (.quoted text) =>
      drop
      return .text text
    | some .flowSequenceStart =>
      drop
      return .list (← flowItems true fuel)
    | some .flowMappingStart =>
      drop
      return .record (← flowEntries true fuel)
    | some .blockEntry =>
      -- a sequence in the place of a key's value need not be indented
      if indentless then return .list (← blockItems false fuel)
      else if mayBlank then return .blank
      else fail
    | some .blockSequenceStart =>
      if block then
        drop
        return .list (← blockItems true fuel)
      else if mayBlank then return .blank
      else fail
    | some .blockMappingStart =>
      if block then
        drop
        return .record (← blockEntries fuel)
      else if mayBlank then return .blank
      else fail
    | _ => if mayBlank then return .blank else fail

/-- A value, or nothing before one of these lexemes. -/
def valueUnless (block indentless : Bool) (ends : List Lexeme) : Nat → Read Document
  | 0 => fail
  | fuel + 1 => do
    if ← sees ends then return .blank else value block indentless fuel

/-- The items of a block sequence, which may have a lexeme at its end. -/
def blockItems (closed : Bool) : Nat → Read (List Document)
  | 0 => fail
  | fuel + 1 => do
    if ← accept .blockEntry then
      let item ← valueUnless true false
        (if closed then [.blockEntry, .blockEnd] else [.blockEntry, .key, .value, .blockEnd]) fuel
      return item :: (← blockItems closed fuel)
    else if !closed then return []
    else if ← accept .blockEnd then return []
    else fail

def blockEntries : Nat → Read (List (Document × Document))
  | 0 => fail
  | fuel + 1 => do
    if ← accept .blockEnd then return []
    else
      let ends : List Lexeme := [.key, .value, .blockEnd]
      let key ← if ← accept .key then valueUnless true true ends fuel else fail
      let entry ← if ← accept .value then valueUnless true true ends fuel else pure .blank
      return (key, entry) :: (← blockEntries fuel)

/-- The items of a flow sequence. -/
def flowItems (first : Bool) : Nat → Read (List Document)
  | 0 => fail
  | fuel + 1 => do
    if ← accept .flowSequenceEnd then return []
    else if !(← acceptSeparator first) then fail
    else if ← accept .flowSequenceEnd then return []
    else
      -- a key makes a mapping of one entry
      let item ← if ← accept .key then singleEntry fuel else value false false fuel
      return item :: (← flowItems false fuel)

/-- The only entry of a mapping inside a flow sequence, behind its key mark. -/
def singleEntry : Nat → Read Document
  | 0 => fail
  | fuel + 1 => do
    let key ← if ← sees [.value, .flowEntry, .flowSequenceEnd] then
        -- where the key is left out, the lexeme behind the mark is passed over
        drop
        pure .blank
      else value false false fuel
    let entry ← if ← accept .value then
        valueUnless false false [.flowEntry, .flowSequenceEnd] fuel
      else pure .blank
    return .record [(key, entry)]

def flowEntries (first : Bool) : Nat → Read (List (Document × Document))
  | 0 => fail
  | fuel + 1 => do
    if ← accept .flowMappingEnd then return []
    else if !(← acceptSeparator first) then fail
    else if ← accept .flowMappingEnd then return []
    else if ← accept .key then
      let key ← valueUnless false false [.value, .flowEntry, .flowMappingEnd] fuel
      let entry ← if ← accept .value then
          valueUnless false false [.flowEntry, .flowMappingEnd] fuel
        else pure .blank
      return (key, entry) :: (← flowEntries false fuel)
    else
      let key ← value false false fuel
      return (key, .blank) :: (← flowEntries false fuel)

end

/-! ## Documents -/

/-- The directives at the start, and what is behind them. -/
def takeDirectives : List Lexeme → List Directive × List Lexeme
  | .directive d :: rest =>
    let (directives, rest) := takeDirectives rest
    (d :: directives, rest)
  | rest => ([], rest)

def Directive.handle? : Directive → Option (Text × List UInt8)
  | .version => none
  | .handle name text => some (name, text)

def commonHandles : List (Text × List UInt8) :=
  [(['!'], Text.bytes ['!']), (['!', '!'], Text.bytes Tag.commonStem)]

/-- Take the directives before a document: the version at most once, and each
    handle at most once.  The result tells whether there are any. -/
def directives : Read Bool := do
  let r ← get
  let (directives, rest) := takeDirectives r.lexemes
  let handles := directives.filterMap Directive.handle?
  if 1 < directives.count .version ∨ ¬(handles.map (·.1)).Nodup then fail
  else
    set { r with lexemes := rest, handles := handles ++ commonHandles }
    return !directives.isEmpty

def dropDocumentEnds (lexemes : List Lexeme) : List Lexeme :=
  lexemes.dropWhile (· == .documentEnd)

/-- The only document of a file.  Behind directives it has to have a mark at its start. -/
def document (fuel : Nat) : Read Document := do
  if (← get).lexemes.isEmpty then return .blank
  else
    let directed ← directives
    let explicit ← accept .documentStart
    if directed && !explicit then fail
    else
      let content ←
        if explicit && ((← peek).isNone || (← sees [.documentStart, .documentEnd])) then
          pure .blank
        else value true false fuel
      modify fun r => { r with lexemes := dropDocumentEnds r.lexemes }
      if (← get).lexemes.isEmpty then return content else fail

/-- Read a text that holds at most one document.  Every call takes a lexeme or
    is one of a few between two lexemes, so that their number bounds the depth. -/
def parse? (t : Text) : Option Document.Graph := do
  let lexemes ← lexemes? t
  let (root, r) ← (document (4 * lexemes.length + 4)).run { lexemes, handles := commonHandles }
  some ⟨root, r.marked.foldl (fun marks e => marks.insert e.1 e.2) ∅⟩

end ClassLint.Yaml
