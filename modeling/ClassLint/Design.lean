/-
  ClassLint.Design

  A design: the colors, spacing steps and screens that utility classes are
  named after, and further class and variant names.  A theme has scales of its
  own, which replace the built-in ones where they are not empty, and extensions,
  which are added to either.
-/

import Std.Data.TreeMap
import ClassLint.Document.Field
import ClassLint.Document.Settled

namespace ClassLint

inductive Color where
  | single (value : Text)
  /-- A value for each shade. -/
  | shades (values : Std.TreeMap Text Text)

structure Scales where
  colors : Std.TreeMap Text Color := ∅
  spacing : Std.TreeMap Text Text := ∅
  screens : Std.TreeMap Text Text := ∅

structure Theme where
  own : Scales := {}
  extensions : Scales := {}

structure Design where
  /-- Class names that are always part of the catalogue. -/
  safelist : List Text := []
  theme : Theme := {}
  /-- Further variant names. -/
  variants : List Text := []
  /-- Stylesheets whose layers contribute class names. -/
  layers : List Text := []

/-! ## Writing -/

def Scales.mapToJson {α : Type} (toJson : α → Json) (map : Std.TreeMap Text α) : Json :=
  .object (map.toList.map fun e => (e.1, toJson e.2))

def Color.toJson : Color → Json
  | single value => .text value
  | shades values => Scales.mapToJson .text values

def Scales.fieldsToJson (s : Scales) : List (String × Json) :=
  [("colors", mapToJson Color.toJson s.colors), ("spacing", mapToJson .text s.spacing),
    ("screens", mapToJson .text s.screens)]

def Theme.toJson (t : Theme) : Json :=
  .record (t.own.fieldsToJson ++ [("extend", .record t.extensions.fieldsToJson)])

def Design.toJson (d : Design) : Json :=
  .record [("safelist", .texts d.safelist), ("theme", d.theme.toJson),
    ("variants", .texts d.variants), ("layers", .texts d.layers)]

/-! ## Reading -/

open Document (Decode)

/-- A map from texts; of several entries with one key the last counts. -/
def Scales.decodeMap {α : Type} (decode : Document → Decode α) (d : Document) :
    Decode (Std.TreeMap Text α) := do
  return (← d.decodeTextEntries decode).foldl (fun map e => map.insert e.1 e.2) ∅

/-- A color.  A text and a map of texts stand in one place, so that the value is
    settled first. -/
def Color.decode (d : Document) : Decode Color := do
  match ← d.settle 1 with
  | .text value => return single value
  | settled => shades <$> Scales.decodeMap Document.decodeText settled

def Scales.decodeSlots (colors spacing screens : Option Document) : Decode Scales := do
  return {
    colors := ← Document.slotOr ∅ (decodeMap Color.decode) colors
    spacing := ← Document.slotOr ∅ (decodeMap Document.decodeText) spacing
    screens := ← Document.slotOr ∅ (decodeMap Document.decodeText) screens }

def Scales.decode (byPosition : Bool) (d : Document) : Decode Scales := do
  match ← d.decodeSlots byPosition ["colors", "spacing", "screens"] with
  | [colors, spacing, screens] => decodeSlots colors spacing screens
  | _ => failure

def Theme.decode (byPosition : Bool) (d : Document) : Decode Theme := do
  match ← d.decodeSlots byPosition ["colors", "spacing", "screens", "extend"] with
  | [colors, spacing, screens, extensions] =>
    return {
      own := ← Scales.decodeSlots colors spacing screens
      extensions := ← Document.slotOr {} (Scales.decode byPosition) extensions }
  | _ => failure

def Design.decode (byPosition : Bool) (d : Document) : Decode Design := do
  match ← d.decodeSlots byPosition ["safelist", "theme", "variants", "layers"] with
  | [safelist, theme, variants, layers] =>
    return {
      safelist := ← Document.slotOr [] Document.decodeTexts safelist
      theme := ← Document.slotOr {} (Theme.decode byPosition) theme
      variants := ← Document.slotOr [] Document.decodeTexts variants
      layers := ← Document.slotOr [] Document.decodeTexts layers }
  | _ => failure

end ClassLint
