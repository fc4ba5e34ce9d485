/-
  ClassLint.Stylesheet

  The class names that a stylesheet defines.  Rules may be nested.  The scan
  reads the cleaned source character by character and keeps a frame for every
  open block: the selectors in force inside it, and whether it lies in a layer.

  A block whose prelude starts with `@` keeps the selectors around it; any
  other block combines its prelude with them and defines the class names of
  every resulting selector.  A source whose braces do not balance is rejected.
-/

import ClassLint.OrderedSet
import ClassLint.Stylesheet.Clean
import ClassLint.Stylesheet.Selector

namespace ClassLint.Stylesheet

inductive Fault where
  /-- A block ends that never began. -/
  | unexpectedClose
  /-- So many blocks never end. -/
  | unclosed (blocks : Nat)
deriving DecidableEq, Repr, Inhabited

def Fault.message : Fault → Text
  | .unexpectedClose => "unexpected '\x7d'".toList
  | .unclosed blocks => Text.ofNat blocks ++ " unclosed block(s)".toList

structure Classes where
  /-- All of them. -/
  classes : OrderedSet Text
  /-- Those that some rule inside a layer defines. -/
  layered : OrderedSet Text
deriving Inhabited

/-- An open block. -/
structure Frame where
  selectors : List Text
  layered : Bool
deriving DecidableEq, Repr, Inhabited

structure ScanState where
  found : Classes
  /-- The open blocks, innermost first. -/
  stack : List Frame
  /-- The text since the last brace or semicolon, last character first. -/
  pending : Text
deriving Inhabited

def ScanState.start : ScanState := ⟨⟨∅, ∅⟩, [], []⟩

def ScanState.selectors (s : ScanState) : List Text :=
  match s.stack with
  | [] => []
  | frame :: _ => frame.selectors

def ScanState.layered (s : ScanState) : Bool :=
  match s.stack with
  | [] => false
  | frame :: _ => frame.layered

def Classes.add (found : Classes) (layered : Bool) (names : List Text) : Classes where
  classes := found.classes.insertAll names
  layered := if layered then found.layered.insertAll names else found.layered

/-- The at-rule that a prelude starts, without its `@`. -/
def atRule? (prelude : Text) : Option Text := ['@'].isPrefixOf? prelude

def ScanState.frame (s : ScanState) (prelude : Text) : Frame :=
  match atRule? prelude with
  | some rule => ⟨s.selectors, s.layered || "layer".toList.isPrefixOf rule⟩
  | none => ⟨Selector.flatten prelude s.selectors, s.layered⟩

def ScanState.defined (s : ScanState) (prelude : Text) : List Text :=
  match atRule? prelude with
  | some _ => []
  | none => (Selector.flatten prelude s.selectors).flatMap Selector.classes

def ScanState.openBlock (s : ScanState) (prelude : Text) : ScanState where
  found := s.found.add s.layered (s.defined prelude)
  stack := s.frame prelude :: s.stack
  pending := []

def ScanState.step (s : ScanState) (c : Char) : Except Fault ScanState :=
  if c = '{' then .ok (s.openBlock (Text.trim s.pending.reverse))
  else if c = '}' then
    match s.stack with
    | [] => .error .unexpectedClose
    | _ :: outer => .ok { s with stack := outer, pending := [] }
  else if c = ';' then .ok { s with pending := [] }
  else .ok { s with pending := c :: s.pending }

def ScanState.run (s : ScanState) : Text → Except Fault ScanState
  | [] => .ok s
  | c :: rest =>
    match s.step c with
    | .ok next => next.run rest
    | .error fault => .error fault

def scanCleaned (cleaned : Text) : Except Fault Classes :=
  match ScanState.start.run cleaned with
  | .error fault => .error fault
  | .ok s => if s.stack.isEmpty then .ok s.found else .error (.unclosed s.stack.length)

def lineCommentExtensions : List Text := ["scss", "sass", "less"].map String.toList

/-- The class names of a source, in the dialect that the file extension names. -/
def scan (extension? : Option Text) (source : Text) : Except Fault Classes :=
  scanCleaned (clean (extension?.any lineCommentExtensions.contains) source)

end ClassLint.Stylesheet
