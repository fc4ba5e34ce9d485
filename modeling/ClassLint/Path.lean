/-
  ClassLint.Path

  Paths of files.  A path is a text; what it means is its list of components.
  Repeated slashes, a trailing slash and interior `.` components are part of
  the text and not of the meaning, so `p/./a/` and `p/a` are the same path
  written differently.
-/

import ClassLint.Text

namespace ClassLint

/-- A path as it is written. -/
structure Path where
  text : Text
deriving DecidableEq, Repr, Inhabited

inductive Component where
  /-- The slash at the start of an absolute path. -/
  | root
  /-- A `.` at the start of a relative path. -/
  | here
  /-- A `..`. -/
  | up
  | name (name : Text)
deriving DecidableEq, Repr, Inhabited

namespace Path

def ofString (s : String) : Path := ⟨s.toList⟩

/-! ## Components -/

def isAbsolute (p : Path) : Bool := p.text.head? == some '/'

def pieces (t : Text) : List Text := Text.split (· == '/') t

/-- A piece that takes no step: nothing between two slashes, or a `.`. -/
def isIdle (piece : Text) : Bool := piece == [] || piece == ['.']

def step? (piece : Text) : Option Component :=
  if isIdle piece then none
  else if piece == ['.', '.'] then some .up
  else some (.name piece)

def components (p : Path) : List Component :=
  if p.isAbsolute then .root :: (pieces p.text).filterMap step?
  else match pieces p.text with
    | ['.'] :: rest => .here :: rest.filterMap step?
    | all => all.filterMap step?

/-- Two spellings of the same path. -/
def same (p q : Path) : Bool := p.components == q.components

def componentText : Component → Text
  | .root => ['/']
  | .here => ['.']
  | .up => ['.', '.']
  | .name name => name

/-! ## Joining -/

def join (p q : Path) : Path :=
  -- an absolute path is below no other
  if q.isAbsolute then q
  else if p.text.isEmpty || p.text.getLast? == some '/' then ⟨p.text ++ q.text⟩
  else ⟨p.text ++ '/' :: q.text⟩

def ofComponents (components : List Component) : Path :=
  components.foldl (fun p c => p.join ⟨componentText c⟩) ⟨[]⟩

/-! ## Taking apart -/

/-- Pieces without the idle ones at the end. -/
def dropIdle (pieces : List Text) : List Text :=
  (pieces.reverse.dropWhile isIdle).reverse

/-- The first piece and the pieces behind it, without idle ones at the end. -/
def body (p : Path) : Text × List Text :=
  match pieces p.text with
  | first :: rest => (first, dropIdle rest)
  | [] => ([], [])

def ofPieces (first : Text) (rest : List Text) : Path :=
  ⟨Text.join ['/'] (first :: rest)⟩

/-- The path without its last component.  The root and the empty path have none. -/
def parent? (p : Path) : Option Path :=
  match p.body with
  | (first, []) => if first.isEmpty then none else some ⟨[]⟩
  | (first, rest) =>
    match dropIdle rest.dropLast with
    | [] => some (if first.isEmpty then ⟨['/']⟩ else ⟨first⟩)
    | rest => some (ofPieces first rest)

/-- The last component, if it is a name. -/
def fileName? (p : Path) : Option Text :=
  match p.components.getLast? with
  | some (.name name) => some name
  | _ => none

/-- A file name at its last dot. -/
def splitName (name : Text) : Text × Option Text :=
  let behind := (name.reverse.takeWhile (· != '.')).reverse
  let before := name.take (name.length - behind.length - 1)
  -- a name that only starts with a dot has no extension
  if before.isEmpty then (name, none) else (before, some behind)

def extension? (p : Path) : Option Text := do
  (splitName (← p.fileName?)).2

/-- The path with another extension; a path without file name stays as it is. -/
def withExtension (p : Path) (extension : Text) : Path :=
  match p.fileName? with
  | none => p
  | some name =>
    let new := (splitName name).1 ++ '.' :: extension
    match p.body with
    | (_, []) => ⟨new⟩
    | (first, rest) => ofPieces first (rest.dropLast ++ [new])

/-- The components below a directory, if the path starts with the directory's. -/
def below? (directory p : Path) : Option (List Component) :=
  directory.components.isPrefixOf? p.components

end Path

end ClassLint
