/-
  ClassLint.Main

  The command line.

  A run sees a tree of files.  The files that its arguments and its
  configuration lead to are read into the tree before it starts, and the files
  that it changed are written when it has ended.  A wildcard does not lead
  through a link to a directory.
-/

import Std.Time.DateTime.Timestamp
import ClassLint.Command.Run

namespace ClassLint

/-! ## Reading files -/

def placeName (place : Place) : String := String.ofList ('/' :: Text.join ['/'] place)

/-- The time of a change in nanoseconds. -/
def changeTime (m : IO.FS.Metadata) : Int := m.modified.sec * 1000000000 + m.modified.nsec.toNat

/-- Read what stands at a place, without what is in it.  Nothing is read where
    nothing can be. -/
def readNode (t : FileTree) (place : Place) : IO FileTree := do
  let .ok path ← (IO.FS.realPath (placeName place)).toBaseIO | return t
  let .ok m ← path.metadata.toBaseIO | return t
  match m.type with
  | .dir => return t.set place (.directory (changeTime m))
  | .file =>
    let .ok content ← (IO.FS.readBinFile path).toBaseIO | return t
    return t.set place (.file content (changeTime m))
  | _ => return t

/-- Read the directories at and below a place, so many deep, and the files in
    them that have a wanted name. -/
def readBelow (wanted : Text → Bool) : Nat → FileTree → Place → IO FileTree
  | 0, t, _ => return t
  | depth + 1, t, place => do
    let .ok path ← (IO.FS.realPath (placeName place)).toBaseIO | return t
    let .ok entries ← path.readDir.toBaseIO | return t
    let mut t := t
    for entry in entries do
      let name := entry.fileName.toList
      match ← entry.path.symlinkMetadata.toBaseIO with
      | .ok { type := .dir, .. } =>
        t ← readNode t (place ++ [name])
        t ← readBelow wanted depth t (place ++ [name])
      | _ => if wanted name then t ← readNode t (place ++ [name])
    return t

/-- A step of a pattern leads to more than one name. -/
def hasWildcard (step : Text) : Bool := step.any ['*', '?', '['].contains

def isWanted (step name : Text) : Bool :=
  match Glob.read step with
  | .ok parts => Glob.accepts parts name
  | .error _ => false

/-- How deep the steps of a pattern lead: no directories are nested deeper than
    the longest path has letters. -/
def patternDepth (steps : List Text) : Nat :=
  if steps.contains ['*', '*'] then 4096 else steps.length

def readPath (t : FileTree) (p : Path) : IO FileTree := do
  let steps := Path.pieces (t.home.join p).text
  let mut t := t
  let mut place : Place := []
  for step in steps.takeWhile (!hasWildcard ·) do
    t ← readNode t place
    let .ok next := t.step place step | return t
    place := next
  t ← readNode t place
  let others := steps.dropWhile (!hasWildcard ·)
  readBelow (isWanted (others.getLastD [])) (patternDepth others) t place

def Command.source : Command → SourceArguments
  | check a => a.source
  | registry a => a.source

def Command.output? : Command → Option Path
  | check _ => none
  | registry a => a.output?

/-- The paths and patterns that a configuration leads to in a tree. -/
def Config.paths (c : Config) (t : FileTree) : List Path :=
  c.stylesheets.flatMap (fun pattern => [⟨pattern⟩, c.cwd.join ⟨pattern⟩])
    ++ designFileNames.map (fun name => c.cwd.join ⟨name⟩)
    ++ (Engine.standard.catalogueInputs t c).1

def readFor (command : Command) (t : FileTree) : IO FileTree := do
  let written := command.output?.toList.flatMap fun p => [p, p.draft]
  let t ← (command.source.config?.toList ++ written).foldlM readPath t
  let .ok config := command.source.toConfig t | return t
  let t ← (config.paths t).foldlM readPath t
  -- A design file that is there now may lead to layer files.
  (config.paths t).foldlM readPath t

/-! ## Writing files -/

/-- Write what is in a tree and was not in another before. -/
def writeChanges (before after : FileTree) : IO Unit := do
  for (place, node) in after.nodes.toList do
    unless before.node? place == some node do
      match node with
      | .directory _ => IO.FS.createDirAll (placeName place)
      | .file content _ => IO.FS.writeBinFile (placeName place) content
  for (place, _) in before.nodes.toList do
    if (after.node? place).isNone then IO.FS.removeFile (placeName place)

/-! ## Running -/

def Command.readInput : Command → IO Text
  | check a => do
    if a.fromInput then return (← (← IO.getStdin).readToEnd).toList
    return []
  | registry _ => return []

def execute (arguments : List Text) : IO UInt32 := do
  let environment? := (← IO.getEnv "CLASS_VALIDATOR_CONFIG").map String.toList
  let home := (Path.pieces (← IO.currentDir).toString.toList).filter (· != [])
  let generatedAt : Timestamp :=
    ⟨(← Std.Time.Timestamp.now).toNanosecondsSinceUnixEpoch.toInt⟩
  let empty := FileTree.ofWorkingDirectory home generatedAt.nanoseconds
  let (tree, input) ← match Arguments.read environment? arguments with
    | .ok command => do pure (← readFor command empty, ← command.readInput)
    | .error _ => pure (empty, [])
  let result := runProgram environment? arguments ⟨tree, ← IO.monoMsNow⟩ generatedAt input
  (← IO.getStdout).putStr (String.ofList result.output)
  writeChanges tree result.tree
  for note in result.notes do
    IO.eprintln (String.ofList note)
  return result.code.toUInt32

end ClassLint

def main (arguments : List String) : IO UInt32 :=
  ClassLint.execute (arguments.map String.toList)
