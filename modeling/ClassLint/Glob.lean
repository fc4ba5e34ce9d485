/-
  ClassLint.Glob

  The paths of a file tree that a pattern matches, in order.

  A pattern is followed step by step.  A step without wildcards is taken if
  there is something at its end; one with wildcards is taken to every matching
  name of the directory, in order, and `**` to everything below the directory,
  each directory before what is in it.  The paths are spelled as the steps are:
  nothing is left out but a `./` at the start.
-/

import ClassLint.FileTree
import ClassLint.Glob.Pattern

namespace ClassLint.Glob

/-! ## Steps -/

/-- The steps of a pattern with several `**` one after the other as one. -/
def collapse : List (List Part) → List (List Part)
  | [.anyDirectories] :: [.anyDirectories] :: rest => collapse ([.anyDirectories] :: rest)
  | step :: rest => step :: collapse rest
  | [] => []

/-- The texts of the steps of a pattern. -/
def stepTexts (pattern : Text) : List Text :=
  -- a slash at the start is no step, and behind one at the end there is none
  let body := if pattern.head? = some '/' then pattern.tail else pattern
  match Path.pieces body with
  | [[]] => [[]]
  | pieces => if pieces.getLast? = some [] then pieces.dropLast else pieces

/-- The steps of a pattern, each a pattern for one name. -/
def steps (pattern : Text) : Except Fault (List (List Part)) := do
  -- a fault is told by its place in the whole pattern
  let _ ← read pattern
  let steps ← (stepTexts pattern).mapM read
  .ok (collapse steps)

/-- The name that a step without wildcards stands for. -/
def literal? (step : List Part) : Option Text :=
  step.mapM fun part =>
    match part with
    | .char c => some c
    | _ => none

/-! ## Paths -/

/-- Where steps lead from a path.  Paths in the directory `.` are spelled without it. -/
def advance (p : Path) (steps : Text) : Path :=
  if p.same ⟨['.']⟩ then ⟨steps⟩ else p.join ⟨steps⟩

/-- A name that stands for a directory above or for the directory itself. -/
def isSpecial (name : Text) : Bool := name = ['.'] || name = ['.', '.']

/-- The names that a step is taken to in a directory. -/
def namesIn (t : FileTree) (p : Path) : List Text :=
  match t.locate p with
  | .ok place => if t.isDirectory p then t.names place else []
  | .error _ => []

/-- What lies below a directory, each directory before what is in it. -/
def below (t : FileTree) (p : Path) : List Place :=
  match t.locate p with
  | .ok place =>
    if t.isDirectory p then
      t.nodes.keys.filterMap fun q => (place.isPrefixOf? q).filter fun rest => !rest.isEmpty
    else []
  | .error _ => []

/-- The special names that a step with wildcards matches. -/
def specials (step : List Part) : List Text :=
  -- a wildcard at the start of a step does not match a dot there
  if step.head? = some (.char '.') then
    [['.', '.'], ['.']].filter (accepts step)
  else []

/-- The paths that steps lead to from a path, in order. -/
def follow (t : FileTree) (directoriesOnly : Bool) : List (List Part) → Path → List Path
  | [], p => if directoriesOnly && !t.isDirectory p then [] else [p]
  | [[.anyDirectories]], p =>
    ((below t p).map fun place => advance p (Text.join ['/'] place)).filter t.isDirectory
  | [.anyDirectories] :: step :: rest, p =>
    (below t p).flatMap fun place =>
      if accepts step (place.getLastD []) then
        follow t directoriesOnly rest (advance p (Text.join ['/'] place))
      else []
  | step :: rest, p =>
    match literal? step with
    | some name =>
      let next := advance p name
      -- a literal step is looked up, and not sought among the names in the directory
      if isSpecial name then
        if t.isDirectory p then follow t directoriesOnly rest next else []
      else
        match t.stat next with
        | .ok _ => follow t directoriesOnly rest next
        | .error _ => []
    | none =>
      if t.isDirectory p then
        ((specials step).flatMap fun name => follow t directoriesOnly rest (p.join ⟨name⟩))
          ++ (namesIn t p).flatMap fun name =>
            if accepts step name then follow t directoriesOnly rest (advance p name) else []
      else []

def paths (t : FileTree) (pattern : Text) : Except Fault (List Path) := do
  let steps ← steps pattern
  let origin : Path := if pattern.head? = some '/' then ⟨['/']⟩ else ⟨['.']⟩
  .ok (follow t (pattern.getLast? == some '/') steps origin)

end ClassLint.Glob
