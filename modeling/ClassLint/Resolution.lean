/-
  ClassLint.Resolution

  The stylesheet files that a list of patterns stands for.

  If some pattern of the list is absolute, all are used as they are; otherwise
  each starts from the working directory.  Files in directories of dependencies
  and build products are left out, and a file that several patterns match is
  listed once, where the first of them finds it.
-/

import ClassLint.Fingerprint
import ClassLint.Glob

namespace ClassLint

/-- A file that a pattern stands for, and the time of its last change. -/
structure ResolvedFile where
  path : Path
  modified : Int
deriving DecidableEq, Repr, Inhabited

/-- The file as a fingerprint sees it. -/
def ResolvedFile.stamp (f : ResolvedFile) : FileStamp :=
  ⟨Text.bytes f.path.text, f.modified⟩

namespace Resolution

def excludedNames : List Text := ["node_modules", "dist", "build"].map String.toList

def isExcludedComponent : Component → Bool
  | .name name => excludedNames.contains name
  | _ => false

/-- A component without characters that mean something in a pattern. -/
def isLiteral : Component → Bool
  | .name name => !name.any "*?[]".toList.contains
  | _ => true

/-- The directory at the start of a pattern. -/
def literalRoot (pattern : Text) : List Component :=
  (Path.components ⟨pattern⟩).takeWhile isLiteral

/-- The components of a path that exclusion looks at: those below the working
    directory, or else below the root of the pattern, or else all. -/
def relevant (cwd : Path) (root : List Component) (p : Path) : List Component :=
  ((cwd.below? p).or (root.isPrefixOf? p.components)).getD p.components

def isExcluded (cwd : Path) (root : List Component) (p : Path) : Bool :=
  (relevant cwd root p).any isExcludedComponent

def isAnchored (patterns : List Text) : Bool :=
  patterns.any fun pattern => Path.isAbsolute ⟨pattern⟩

def fromDirectory (cwd : Path) (pattern : Text) : Text :=
  let base := ((Glob.escape cwd.text).reverse.dropWhile (· == '/')).reverse
  -- a `./` at the start of the pattern counts for nothing
  base ++ '/' :: (("./".toList.isPrefixOf? pattern).getD pattern)

/-- A pattern as it is followed, with the root for exclusions. -/
def expanded (anchored : Bool) (cwd : Path) (pattern : Text) : Text × List Component :=
  if anchored then (pattern, literalRoot pattern)
  else (fromDirectory cwd pattern, cwd.components)

def file? (t : FileTree) (p : Path) : Option ResolvedFile :=
  match t.stat p with
  | .ok (.file _ modified) => some ⟨p, modified⟩
  | _ => none

/-- Of the paths that a pattern matches those that are new and not excluded. -/
def fresh (cwd : Path) (root : List Component) : List Path → List Path → List Path
  | _, [] => []
  | seen, p :: rest =>
    -- repetitions are told by components, as sets of paths do
    if isExcluded cwd root p || seen.any p.same then fresh cwd root seen rest
    else p :: fresh cwd root (p :: seen) rest

def freshPaths (glob : Text → Except Glob.Fault (List Path)) (anchored : Bool) (cwd : Path) :
    List Path → List Text → Except Glob.Fault (List Path)
  | _, [] => .ok []
  | seen, pattern :: rest => do
    let (full, root) := expanded anchored cwd pattern
    let found := fresh cwd root seen (← glob full)
    let more ← freshPaths glob anchored cwd (found.reverse ++ seen) rest
    .ok (found ++ more)

/-- The files that patterns stand for, by a way of matching a single pattern. -/
def filesBy (glob : Text → Except Glob.Fault (List Path)) (t : FileTree) (patterns : List Text)
    (cwd : Path) : Except Glob.Fault (List ResolvedFile) := do
  let paths ← freshPaths glob (isAnchored patterns) cwd [] patterns
  .ok (paths.filterMap (file? t))

def files (t : FileTree) (patterns : List Text) (cwd : Path) :
    Except Glob.Fault (List ResolvedFile) :=
  filesBy (Glob.paths t) t patterns cwd

end Resolution

end ClassLint
