/-
  ClassLint.Config

  What a check is configured with: where class names come from, and which
  names are always, never or silently accepted.  Two configurations merge into
  one whose lists begin with the lists of the first.
-/

import ClassLint.Document.Field
import ClassLint.Document.Settled
import ClassLint.Path

namespace ClassLint

/-- Which design the generated catalogue belongs to. -/
structure CatalogueSettings where
  /-- The design file; looked for in the working directory if none is named. -/
  configPath : Option Path := none
  /-- Classes of the design's layer stylesheets belong to the catalogue. -/
  includeGenerated : Bool := false
deriving DecidableEq, Repr, Inhabited

inductive CatalogueChoice where
  | enabled (on : Bool)
  | settings (settings : CatalogueSettings)
deriving DecidableEq, Repr

structure Config where
  /-- Patterns of stylesheet files. -/
  stylesheets : List Text := []
  catalogue : CatalogueChoice := .enabled false
  /-- Names and patterns that are always valid. -/
  allowlist : List Text := []
  /-- Names and patterns that are never valid. -/
  blocklist : List Text := []
  /-- Names and patterns that are never reported. -/
  ignore : List Text := []
  /-- The directory that relative patterns and paths start from. -/
  cwd : Path
deriving DecidableEq, Repr

namespace CatalogueChoice

instance : Inhabited CatalogueChoice := ⟨enabled false⟩

def settings? : CatalogueChoice → Option CatalogueSettings
  | enabled false => none
  | enabled true => some {}
  | settings s => some s

end CatalogueChoice

/-! ## Merging -/

def appendNew (target : List Text) : List Text → List Text
  | [] => target
  | item :: rest => appendNew (if target.contains item then target else target ++ [item]) rest

def Config.merge (base additions : Config) : Config where
  stylesheets := appendNew base.stylesheets additions.stylesheets
  catalogue := if additions.catalogue.settings?.isSome then additions.catalogue else base.catalogue
  allowlist := appendNew base.allowlist additions.allowlist
  blocklist := appendNew base.blocklist additions.blocklist
  ignore := appendNew base.ignore additions.ignore
  -- the working directory of the additions does not count
  cwd := base.cwd

/-! ## Writing -/

def CatalogueSettings.toJson (s : CatalogueSettings) : Json :=
  .record [("configPath", match s.configPath with | some p => .text p.text | none => .null),
    ("includeGeneratedClasses", .bool s.includeGenerated)]

def CatalogueChoice.toJson : CatalogueChoice → Json
  | enabled on => .bool on
  | settings s => s.toJson

def Config.toJson (c : Config) : Json :=
  .record [("stylesheets", .texts c.stylesheets), ("catalogue", c.catalogue.toJson),
    ("allowlist", .texts c.allowlist), ("blocklist", .texts c.blocklist),
    ("ignore", .texts c.ignore), ("cwd", .text c.cwd.text)]

/-! ## Reading -/

open Document (Decode)

def CatalogueSettings.decode (d : Document) : Decode CatalogueSettings := do
  match ← d.decodeSlots true ["configPath", "includeGeneratedClasses"] with
  | [configPath, includeGenerated] =>
    let configPath ← Document.slotOr none Document.decodeOptionalText configPath
    let includeGenerated ← Document.slotOr false Document.decodeBool includeGenerated
    return ⟨configPath.map Path.mk, includeGenerated⟩
  | _ => failure

def CatalogueChoice.decode (d : Document) : Decode CatalogueChoice := do
  -- a truth value and settings stand in one place, so that the value is settled
  -- first; it stands inside one record
  match ← d.settle (Document.maxDepth - 1) with
  | .bool on => return .enabled on
  | settled => settings <$> CatalogueSettings.decode settled

def Config.decode (byPosition : Bool) (home : Path) (d : Document) : Decode Config := do
  match ← d.decodeSlots byPosition
      ["stylesheets", "catalogue", "allowlist", "blocklist", "ignore", "cwd"] with
  | [stylesheets, catalogue, allowlist, blocklist, ignore, cwd] =>
    return {
      stylesheets := ← Document.slotOr [] Document.decodeTexts stylesheets
      catalogue := ← Document.slotOr default CatalogueChoice.decode catalogue
      allowlist := ← Document.slotOr [] Document.decodeTexts allowlist
      blocklist := ← Document.slotOr [] Document.decodeTexts blocklist
      ignore := ← Document.slotOr [] Document.decodeTexts ignore
      cwd := ← Document.slotOr home (fun d => Path.mk <$> d.decodeText) cwd }
  | _ => failure

end ClassLint
