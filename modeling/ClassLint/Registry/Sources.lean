/-
  ClassLint.Registry.Sources

  Gathering what a registry is made from.  A stylesheet that cannot be read or
  scanned contributes nothing, and a catalogue that cannot be made is empty.

  The usual extractor reads the selectors of a stylesheet; a host may find its
  class names in a way of its own instead.
-/

import ClassLint.Failure
import ClassLint.Registry

namespace ClassLint

/-- How the class names of a stylesheet are found from its path and its source. -/
abbrev Extractor := Path → Text → Except Failure (OrderedSet Text)

def Extractor.selectors : Extractor := fun p source =>
  match Stylesheet.scan p.extension? source with
  | .ok found => .ok found.classes
  | .error fault => .error (.stylesheet p fault)

/-- What a configuration asks a registry to be made from. -/
structure RegistryRequest where
  files : List Path
  /-- The settings of the catalogue, if it is enabled. -/
  settings? : Option CatalogueSettings
  allowlist : List Text
  blocklist : List Text
  ignore : List Text
  cwd : Path

namespace RegistryRequest

/-- The names that a stylesheet file defines; none if it cannot be read or scanned. -/
def definedNames (t : FileTree) (p : Path) (extract : Extractor := .selectors) :
    OrderedSet Text :=
  match t.read p with
  | .error _ => ∅
  | .ok source =>
    match extract p source with
    | .ok names => names
    | .error _ => ∅

def stylesheets (r : RegistryRequest) (t : FileTree) (extract : Extractor := .selectors) :
    List (Path × OrderedSet Text) :=
  (r.files.map fun p => (p, definedNames t p extract)).filter fun file => !file.2.isEmpty

/-- The catalogue, if it is enabled. -/
def catalogue? (r : RegistryRequest) (g : Generator) (t : FileTree) : Option Catalogue :=
  r.settings?.map fun s =>
    match g.generate t s r.cwd with
    | .ok catalogue => catalogue
    | .error _ => ∅

def sources (r : RegistryRequest) (g : Generator) (t : FileTree)
    (extract : Extractor := .selectors) : RegistrySources where
  stylesheets := r.stylesheets t extract
  catalogue? := r.catalogue? g t
  allowlist := r.allowlist
  blocklist := r.blocklist
  ignore := r.ignore

def build (r : RegistryRequest) (g : Generator) (t : FileTree) (key? : Option Digest)
    (extract : Extractor := .selectors) : Registry :=
  Registry.ofSources key? (r.sources g t extract)

end RegistryRequest

end ClassLint
