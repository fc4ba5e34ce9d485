/-
  ClassLint.Catalogue.Generator

  Where the catalogue of a configuration comes from.  The usual generator
  expands the design file that the settings name; a host may make catalogues in
  a way of its own instead.

  A generator also tells which files it reads, so that a change of one shows.
  The layer files that a design names are remembered with the design file's
  time of change, and the design is read again only when that time changes.
-/

import ClassLint.Catalogue
import ClassLint.Config.File
import ClassLint.Stylesheet

namespace ClassLint

inductive CatalogueFault where
  /-- The design cannot be loaded. -/
  | design (path : Path) (fault : ConfigFault)
  /-- The host has none. -/
  | unavailable (reason : Text)
deriving DecidableEq, Repr, Inhabited

def CatalogueFault.message : CatalogueFault → Text
  | design path fault =>
    "cannot load design config ".toList ++ path.text ++ ": Configuration error: ".toList
      ++ fault.message
  | unavailable reason => reason

/-- The layer files of the design that was read last. -/
structure LayerMemo where
  configPath : Path
  /-- When the design file was last changed. -/
  modified : Int
  cwd : Path
  layers : List Path
deriving DecidableEq, Repr

def designFileNames : List Text :=
  ["tailwind.config.json", "tailwind.config.yaml", "tailwind.config.yml"].map String.toList

/-- The design file of the settings: the one they name, or the first that is there. -/
def CatalogueSettings.designFile? (s : CatalogueSettings) (t : FileTree) (cwd : Path) :
    Option Path :=
  match s.configPath with
  | some path => some (cwd.join path)
  | none => (designFileNames.map fun name => cwd.join ⟨name⟩).find? t.isFile

/-- How a host makes catalogues.  Unless it says otherwise, it does so from the
    design file alone. -/
structure CatalogueHost where
  generate : FileTree → CatalogueSettings → Path → Except CatalogueFault Catalogue
  inputs : FileTree → CatalogueSettings → Path → List Path :=
    fun t s cwd => (s.designFile? t cwd).toList

inductive Generator where
  /-- The design file of the settings. -/
  | design
  | host (h : CatalogueHost)

def Design.layerPaths (d : Design) (cwd : Path) : List Path :=
  d.layers.map fun layer => cwd.join ⟨layer⟩

/-- The classes of a stylesheet file, if it can be read and scanned. -/
def FileTree.stylesheet? (t : FileTree) (p : Path) : Option Stylesheet.Classes :=
  match t.read p with
  | .error _ => none
  | .ok source =>
    match Stylesheet.scan p.extension? source with
    | .ok classes => some classes
    | .error _ => none

def Design.layerClasses (d : Design) (t : FileTree) (cwd : Path) : List Text :=
  (d.layerPaths cwd).flatMap fun path =>
    match t.stylesheet? path with
    | some classes => classes.layered.toList
    -- a file that cannot be read is passed over
    | none => []

namespace LayerMemo

/-- The memo is of this design file, unchanged since, in this directory. -/
def isFor (memo : LayerMemo) (configPath : Path) (modified : Int) (cwd : Path) : Bool :=
  memo.configPath.same configPath && memo.modified == modified && memo.cwd.same cwd

def layersOf (memo : Option LayerMemo) (t : FileTree) (configPath cwd : Path) :
    List Path × Option LayerMemo :=
  match t.stat configPath with
  | .error _ => ([], memo)
  | .ok node =>
    match memo.filter fun m => m.isFor configPath node.modified cwd with
    | some m => (m.layers, memo)
    | none =>
      match Design.load t configPath with
      -- a design that cannot be read does not replace the memo
      | .error _ => ([], memo)
      | .ok d => (d.layerPaths cwd, some ⟨configPath, node.modified, cwd, d.layerPaths cwd⟩)

end LayerMemo

namespace Generator

def fromDesign (t : FileTree) (s : CatalogueSettings) (cwd : Path) :
    Except CatalogueFault Catalogue := do
  let d ← match s.designFile? t cwd with
    -- without a design file the catalogue is that of the empty design
    | none => .ok {}
    | some path =>
      match Design.load t path with
      | .ok d => .ok d
      | .error fault => .error (.design path fault)
  let c := d.catalogue
  if s.includeGenerated then
    .ok { c with classes := c.classes.insertAll (d.layerClasses t cwd) }
  else .ok c

def fixed (catalogue : Catalogue) : Generator :=
  host { generate := fun _ _ _ => .ok catalogue }

def failing (reason : Text) : Generator :=
  host { generate := fun _ _ _ => .error (.unavailable reason) }

def generate (g : Generator) (t : FileTree) (s : CatalogueSettings) (cwd : Path) :
    Except CatalogueFault Catalogue :=
  match g with
  | design => fromDesign t s cwd
  | host h => h.generate t s cwd

def inputs (g : Generator) (memo : Option LayerMemo) (t : FileTree) (s : CatalogueSettings)
    (cwd : Path) : List Path × Option LayerMemo :=
  match g with
  | host h => (h.inputs t s cwd, memo)
  | design =>
    match s.designFile? t cwd with
    | none => ([], memo)
    | some path =>
      if s.includeGenerated then
        let (layers, memo) := LayerMemo.layersOf memo t path cwd
        (path :: layers, memo)
      else ([path], memo)

end Generator

end ClassLint
