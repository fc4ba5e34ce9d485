/-
  ClassLint.Registry

  A registry answers for every name whether it is a valid class.

  It knows the names that stylesheets define and the names of utilities, which
  are those of the catalogue and of the allow list.  A name that both know is a
  utility.  Wildcards of the allow list and, where there is a catalogue, stems
  with an arbitrary value make further utilities; only utilities take variants.
  A name that a pattern of the block list matches is never valid.
-/

import ClassLint.Catalogue
import ClassLint.Digest
import ClassLint.Path
import ClassLint.Pattern
import ClassLint.Token.Arbitrary
import ClassLint.Token.Variant

namespace ClassLint

structure RegistrySources where
  /-- The names that each stylesheet defines, for those that define any. -/
  stylesheets : List (Path × OrderedSet Text)
  /-- The catalogue, if it is enabled; one that cannot be made is empty. -/
  catalogue? : Option Catalogue
  allowlist : List Text
  blocklist : List Text
  ignore : List Text

structure Registry where
  /-- What identifies the state it was made from. -/
  key? : Option Digest
  /-- Names that stylesheets define. -/
  css : OrderedSet Text
  /-- Names of utilities. -/
  utilities : OrderedSet Text
  /-- All names of both kinds. -/
  all : OrderedSet Text
  /-- The wildcards of the allow list. -/
  allow : List NamePattern
  block : List NamePattern
  ignore : List NamePattern
  variants : OrderedSet Text
  catalogueEnabled : Bool
  /-- The names that each stylesheet defines, blocked ones included. -/
  byFile : List (Path × OrderedSet Text)

namespace Registry

/-! ## Look-up -/

def isBlocked (r : Registry) (name : Text) : Bool :=
  NamePattern.anyAccepts r.block name

/-- The name is a stem with an arbitrary value, and there is a catalogue. -/
def isArbitrary (r : Registry) (name : Text) : Bool :=
  r.catalogueEnabled && Arbitrary.isValid name

def isUtility (r : Registry) (name : Text) : Bool :=
  !r.isBlocked name
    && (r.utilities.contains name || NamePattern.anyAccepts r.allow name || r.isArbitrary name)

/-- The name is known as it stands, variants and all. -/
def isListed (r : Registry) (name : Text) : Bool :=
  r.all.contains name || NamePattern.anyAccepts r.allow name || r.isArbitrary name

/-- The name is made of known variants before a utility. -/
def isCompound (r : Registry) (name : Text) : Bool :=
  let t := Token.parse name
  t.hasVariants && (Variant.firstRejected? r.variants t.variants).isNone && r.isUtility t.base

def isValid (r : Registry) (name : Text) : Bool :=
  !r.isBlocked name && (r.isListed name || r.isCompound name)

/-- Only stylesheets define the name. -/
def isCss (r : Registry) (name : Text) : Bool :=
  r.css.contains name && !r.utilities.contains name

/-- The name is a utility and not left to the stylesheets. -/
def isUtilityOnly (r : Registry) (name : Text) : Bool :=
  !r.isCss name && r.isUtility name

/-! ## Making -/

/-- Set the names of a stylesheet. -/
def setFile (path : Path) (classes : OrderedSet Text) :
    List (Path × OrderedSet Text) → List (Path × OrderedSet Text)
  | [] => [(path, classes)]
  | entry :: rest =>
    -- a stylesheet that is listed already keeps its place
    if entry.1.same path then (entry.1, classes) :: rest
    else entry :: setFile path classes rest

/-- The entries of an allow list that stand for themselves. -/
def literals (allowlist : List Text) : List Text :=
  allowlist.filter fun entry => !entry.isEmpty && !entry.contains '*'

/-- The entries of an allow list with a wildcard. -/
def wildcards (allowlist : List Text) : List Text :=
  allowlist.filter fun entry => entry.contains '*'

def unblocked (block : List NamePattern) (names : List Text) : List Text :=
  names.filter fun name => !NamePattern.anyAccepts block name

def ofSources (key? : Option Digest) (s : RegistrySources) : Registry :=
  let block := NamePattern.compileAll s.blocklist
  let catalogue := s.catalogue?.getD ∅
  let css := OrderedSet.ofList
    (unblocked block (s.stylesheets.flatMap fun file => file.2.toList))
  let utilities := OrderedSet.ofList
    (unblocked block (catalogue.classes.toList ++ literals s.allowlist))
  { key?, css, utilities, block
    all := OrderedSet.ofList (css.toList ++ utilities.toList)
    allow := NamePattern.compileAll (wildcards s.allowlist)
    ignore := NamePattern.compileAll s.ignore
    variants := catalogue.variants
    catalogueEnabled := s.catalogue?.isSome
    byFile := s.stylesheets.foldl (fun files file => setFile file.1 file.2 files) [] }

end Registry

end ClassLint
