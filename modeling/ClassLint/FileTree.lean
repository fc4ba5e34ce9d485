/-
  ClassLint.FileTree

  A tree of files and directories.

  A place is the list of names that lead to a file or directory from the root.
  A path is followed step by step from the root or, if it is relative, from the
  working directory; every step but the last has to stand in a directory, and
  so has a path that ends with a slash.
-/

import Std.Data.TreeMap
import ClassLint.Path

namespace ClassLint

inductive FileFault where
  | notFound
  | alreadyExists
  | notDirectory
  | isDirectory
  | busy
  /-- The bytes of the file are no text. -/
  | notText
  /-- The device refuses. -/
  | device (wording : Text)
deriving DecidableEq, Repr, Inhabited

def FileFault.message : FileFault → Text
  | notFound => "No such file or directory (os error 2)".toList
  | busy => "Device or resource busy (os error 16)".toList
  | alreadyExists => "File exists (os error 17)".toList
  | notDirectory => "Not a directory (os error 20)".toList
  | isDirectory => "Is a directory (os error 21)".toList
  | notText => "stream did not contain valid UTF-8".toList
  | device wording => wording

/-- What the device under a tree refuses, whatever the tree itself would allow. -/
structure Device where
  directory? : Path → Option FileFault := fun _ => none
  create? : Option FileFault := none
  /-- Only so many bytes are taken. -/
  write? : Option (Nat × FileFault) := none
  sync? : Option FileFault := none
  rename? : Option FileFault := none

namespace Device

def sound : Device := {}

/-- What comes of a step that a device may refuse.  The tree is asked first. -/
def pass {α : Type} (refusal? : Option FileFault) (step : Except FileFault α) :
    Except FileFault α :=
  match step, refusal? with
  | .ok _, some fault => .error fault
  | step, _ => step

end Device

/-- The names that lead from the root to a file or directory. -/
abbrev Place := List Text

/-- A file or directory; `modified` is the time of its last change in
    nanoseconds since the beginning of 1970. -/
inductive Node where
  | file (content : ByteArray) (modified : Int)
  | directory (modified : Int)
deriving BEq, Inhabited

def Node.modified : Node → Int
  | file _ modified => modified
  | directory modified => modified

def Node.setModified (modified : Int) : Node → Node
  | file content _ => file content modified
  | directory _ => directory modified

def Node.isFile : Node → Bool
  | file .. => true
  | directory _ => false

structure FileTree where
  /-- What stands at each place but the root. -/
  nodes : Std.TreeMap Place Node
  /-- Where relative paths start. -/
  workingDirectory : Place
  /-- The present time; it moves on with every change. -/
  now : Int

namespace FileTree

/-! ## Looking -/

/-- What stands at a place.  The root is a directory. -/
def node? (t : FileTree) (place : Place) : Option Node :=
  if place.isEmpty then some (.directory 0) else t.nodes[place]?

/-- The place one step further; a step is taken in a directory only. -/
def step (t : FileTree) (place : Place) (piece : Text) : Except FileFault Place :=
  match t.node? place with
  | none => .error .notFound
  | some (.file ..) => .error .notDirectory
  | some (.directory _) =>
    if Path.isIdle piece then .ok place
    else if piece = ['.', '.'] then .ok place.dropLast
    else .ok (place ++ [piece])

def walk (t : FileTree) (place : Place) (pieces : List Text) : Except FileFault Place :=
  pieces.foldlM t.step place

def start (t : FileTree) (p : Path) : Place :=
  if p.isAbsolute then [] else t.workingDirectory

/-- The place that a path leads to.  There may be nothing at it. -/
def locate (t : FileTree) (p : Path) : Except FileFault Place :=
  if p.text.isEmpty then .error .notFound else t.walk (t.start p) (Path.pieces p.text)

def stat (t : FileTree) (p : Path) : Except FileFault Node := do
  match t.node? (← t.locate p) with
  | some node => .ok node
  | none => .error .notFound

def isFile (t : FileTree) (p : Path) : Bool :=
  match t.stat p with
  | .ok node => node.isFile
  | .error _ => false

def isDirectory (t : FileTree) (p : Path) : Bool :=
  match t.stat p with
  | .ok node => !node.isFile
  | .error _ => false

def read (t : FileTree) (p : Path) : Except FileFault Text := do
  match ← t.stat p with
  | .directory _ => .error .isDirectory
  | .file content _ =>
    match Text.ofBytes? content with
    | some text => .ok text
    | none => .error .notText

def names (t : FileTree) (place : Place) : List Text :=
  t.nodes.keys.filterMap fun p =>
    match place.isPrefixOf? p with
    | some [name] => some name
    | _ => none

/-- The places of all files at or below a place, in order. -/
def filesBelow (t : FileTree) (place : Place) : List Place :=
  t.nodes.toList.filterMap fun e =>
    if e.2.isFile then place.isPrefixOf? e.1 else none

/-! ## Changing -/

def set (t : FileTree) (place : Place) (node : Node) : FileTree :=
  if place.isEmpty then t else { t with nodes := t.nodes.insert place node }

/-- The directory at a place is changed now. -/
def touchDirectory (t : FileTree) (place : Place) : FileTree :=
  match t.node? place with
  | some (.directory _) => { t.set place (.directory t.now) with now := t.now + 1 }
  | _ => t

/-- Put something at a place; the directory around it changes if it is new there. -/
def put (t : FileTree) (place : Place) (node : Node) : FileTree :=
  let changed := t.set place node
  if (t.node? place).isSome then changed else changed.touchDirectory place.dropLast

/-- Take away what stands at a place and below it. -/
def erase (t : FileTree) (place : Place) : FileTree :=
  { t with nodes := t.nodes.filter fun p _ => !place.isPrefixOf p }.touchDirectory place.dropLast

/-- The directory that the last step of a path is taken in, and that step. -/
def splitLast (t : FileTree) (p : Path) : Except FileFault (Place × Text) := do
  let pieces := Path.pieces p.text
  let directory ← t.walk (t.start p) pieces.dropLast
  -- a step in a file fails whatever it is
  let _ ← t.step directory []
  .ok (directory, pieces.getLastD [])

/-- A step that gives no name to something new. -/
def isNameless (piece : Text) : Bool := Path.isIdle piece || piece = ['.', '.']

/-- Where a path puts a file, new or in the place of the one that stands there. -/
def filePlace (t : FileTree) (p : Path) : Except FileFault Place := do
  if p.text.isEmpty then .error .notFound
  else
    let (directory, last) ← t.splitLast p
    if isNameless last then .error .isDirectory
    else
      let place := directory ++ [last]
      match t.node? place with
      | some (.directory _) => .error .isDirectory
      | _ => .ok place

/-- A file as others write it, whole.  What a program of this library writes goes
    through a device step by step. -/
def write (t : FileTree) (p : Path) (content : ByteArray) (modified : Int) :
    Except FileFault FileTree := do
  let place ← t.filePlace p
  .ok (t.put place (.file content modified))

/-- The path without slashes at its end. -/
def dropSlashes (p : Path) : Path :=
  ⟨(p.text.reverse.dropWhile (· == '/')).reverse⟩

def makeDirectory (t : FileTree) (p : Path) : Except FileFault FileTree := do
  if p.text.isEmpty then .error .notFound
  else
    let (directory, last) ← t.splitLast (dropSlashes p)
    if isNameless last then .error .alreadyExists
    else
      let place := directory ++ [last]
      if (t.node? place).isSome then .error .alreadyExists
      else .ok (t.put place (.directory t.now))

/-- Make one directory unless it is there. -/
def ensureDirectory (t : FileTree) (device : Device) (p : Path) :
    Except FileFault Unit × FileTree :=
  match Device.pass (device.directory? p) (t.makeDirectory p) with
  | .ok t => (.ok (), t)
  | .error fault => (if t.isDirectory p then .ok () else .error fault, t)

/-- Make a directory and those above it that are missing; `depth` bounds their number. -/
def ensureDirectoriesUpTo (device : Device) :
    Nat → FileTree → Path → Except FileFault Unit × FileTree
  | depth, t, p =>
    if p.text.isEmpty then (.ok (), t)
    else match depth, Device.pass (device.directory? p) (t.makeDirectory p), p.parent? with
      | depth + 1, .error .notFound, some parent =>
        match ensureDirectoriesUpTo device depth t parent with
        | (.ok (), t) => t.ensureDirectory device p
        -- the directories above that were made stay
        | (.error fault, t) => (.error fault, t)
      | _, _, _ => t.ensureDirectory device p

/-- Make a directory and those above it that are missing. -/
def ensureDirectories (t : FileTree) (device : Device) (p : Path) :
    Except FileFault Unit × FileTree :=
  ensureDirectoriesUpTo device p.text.length t p

/-- The tree with a directory and those above it, if all of them can be made. -/
def makeDirectories (t : FileTree) (p : Path) : Except FileFault FileTree :=
  match t.ensureDirectories .sound p with
  | (.ok (), t) => .ok t
  | (.error fault, _) => .error fault

/-- Move a file to another path, where it takes the place of a file that stands there. -/
def rename (t : FileTree) (source target : Path) : Except FileFault FileTree := do
  let origin ← t.locate source
  let (directory, last) ← t.splitLast (dropSlashes target)
  match t.node? origin with
  | none => .error .notFound
  | some (.directory _) => .error .busy
  | some file =>
    if isNameless last then .error .busy
    else if target.text.getLast? = some '/' then .error .notDirectory
    else
      let place := directory ++ [last]
      match t.node? place with
      | some (.directory _) => .error .isDirectory
      | _ => if place = origin then .ok t else .ok ((t.put place file).erase origin)

/-- Take away a file, or a directory with all that is in it. -/
def remove (t : FileTree) (p : Path) : Except FileFault FileTree := do
  let place ← t.locate p
  match t.node? place with
  | none => .error .notFound
  | some _ => .ok (t.erase place)

def touch (t : FileTree) (p : Path) (modified : Int) : Except FileFault FileTree := do
  let place ← t.locate p
  match t.node? place with
  | none => .error .notFound
  | some node => .ok (t.set place (node.setModified modified))

def ofWorkingDirectory (place : Place) (now : Int) : FileTree where
  nodes := (List.range place.length).foldl
    (fun nodes depth => nodes.insert (place.take (depth + 1)) (.directory now)) ∅
  workingDirectory := place
  now := now

end FileTree

end ClassLint
