/-
  ClassLint.Report

  A report lists the classes of a registry with their origin and the files that
  define them, the variants and patterns, and how many there are of each.
-/

import ClassLint.Json.Printer
import ClassLint.OrderedMap
import ClassLint.Registry
import ClassLint.Timestamp

namespace ClassLint

inductive Origin where
  /-- Only stylesheets define it. -/
  | stylesheet
  /-- It belongs to the catalogue or the allow list. -/
  | utility
deriving DecidableEq, Repr, Inhabited

def Origin.name : Origin → Text
  | stylesheet => "stylesheet".toList
  | utility => "utility".toList

def Origin.ofName? (name : Text) : Option Origin :=
  [stylesheet, utility].find? fun origin => origin.name == name

structure ReportEntry where
  origin : Origin
  /-- The stylesheets that define it. -/
  files : List Text
deriving DecidableEq, Repr, Inhabited

/-- The classes of a report, in the order in which they were first added. -/
abbrev ReportClasses := OrderedMap Text ReportEntry

/-- Add a class.  One that is there keeps its origin and gains a file at most once. -/
def ReportClasses.add (classes : ReportClasses) (name : Text) (origin : Origin)
    (file : Option Text) : ReportClasses :=
  classes.update name fun entry =>
    let entry := entry.getD ⟨origin, []⟩
    match file with
    | some file =>
      if entry.files.contains file then entry else { entry with files := entry.files ++ [file] }
    | none => entry

structure Statistics where
  classes : Nat
  stylesheetClasses : Nat
  utilityClasses : Nat
  variants : Nat
  wildcards : Nat
deriving DecidableEq, Repr, Inhabited

structure Report where
  generatedAt : Timestamp
  /-- What identifies the state that the registry was made from. -/
  key? : Option Digest := none
  /-- The number of stylesheets that define classes. -/
  stylesheets : Nat := 0
  catalogueEnabled : Bool := false
  classes : ReportClasses := ∅
  variants : List Text := []
  allow : List Text := []
  block : List Text := []
  ignore : List Text := []
  statistics? : Option Statistics := none

namespace Report

/-! ## Making -/

def countWildcards (patterns : List Text) : Nat :=
  patterns.countP fun pattern => pattern.contains '*'

def computeStatistics (r : Report) : Statistics :=
  let stylesheetClasses :=
    r.classes.toList.countP fun entry => entry.2.origin == Origin.stylesheet
  { classes := r.classes.size
    stylesheetClasses
    utilityClasses := r.classes.size - stylesheetClasses
    variants := r.variants.length
    wildcards := countWildcards (r.allow ++ r.block ++ r.ignore) }

def withStatistics (r : Report) : Report :=
  { r with statistics? := some r.computeStatistics }

/-- The classes that only stylesheets define, file by file. -/
def stylesheetAdditions (registry : Registry) : List (Text × Text) :=
  registry.byFile.flatMap fun file =>
    (file.2.toList.filter registry.isCss).map fun name => (name, file.1.text)

def originIn (registry : Registry) (name : Text) : Origin :=
  if registry.isCss name then .stylesheet else .utility

/-- The classes of a registry: first those of the files, then all that are missing. -/
def classesOf (registry : Registry) : ReportClasses :=
  let ofFiles := (stylesheetAdditions registry).foldl
    (fun (classes : ReportClasses) entry =>
      ReportClasses.add classes entry.1 .stylesheet (some entry.2)) ∅
  registry.all.toList.foldl
    (fun classes name => ReportClasses.add classes name (originIn registry name) none) ofFiles

def ofRegistry (generatedAt : Timestamp) (registry : Registry) : Report :=
  withStatistics {
    generatedAt
    key? := registry.key?
    stylesheets := registry.byFile.length
    catalogueEnabled := registry.catalogueEnabled
    classes := classesOf registry
    variants := registry.variants.toList
    allow := registry.allow.map (·.source)
    block := registry.block.map (·.source)
    ignore := registry.ignore.map (·.source) }

/-! ## Writing -/

def formVersion : Text := "1.0.0".toList

def programVersion : Text := "0.2.0".toList

/-- An entry as JSON; a list of files is written unless it is empty. -/
def entryToJson (entry : ReportEntry) : Json :=
  .record (("origin", .text entry.origin.name)
    :: if entry.files.isEmpty then [] else [("files", .texts entry.files)])

def metadataToJson (r : Report) : Json :=
  .record ([("version", .text formVersion), ("generated_at", .text r.generatedAt.render)]
    ++ (match r.key? with
      | some key => [("cache_key", .text key.hex)]
      | none => [])
    ++ [("stylesheets", .ofNat r.stylesheets), ("catalogue_enabled", .bool r.catalogueEnabled),
      ("validator_version", .text programVersion)])

def statisticsToJson (s : Statistics) : Json :=
  .record [("total_classes", .ofNat s.classes), ("stylesheet_classes", .ofNat s.stylesheetClasses),
    ("utility_classes", .ofNat s.utilityClasses), ("variants", .ofNat s.variants),
    ("wildcard_patterns", .ofNat s.wildcards)]

def toJson (r : Report) : Json :=
  .record ([("metadata", r.metadataToJson),
    ("classes", .object (r.classes.toList.map fun e => (e.1, entryToJson e.2))),
    ("variants", .texts r.variants),
    ("patterns", .record [("allow", .texts r.allow), ("block", .texts r.block),
      ("ignore", .texts r.ignore)])]
    ++ match r.statistics? with
      | some s => [("statistics", statisticsToJson s)]
      | none => [])

def render (r : Report) : Text := r.toJson.pretty

end Report

end ClassLint
