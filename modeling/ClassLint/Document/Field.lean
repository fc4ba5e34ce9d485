/-
  ClassLint.Document.Field

  Decoding the fields of configuration files.  A field that takes a text takes
  any scalar that may be meant as one, and a blank stands for the empty text,
  the empty list and the empty record; tags count for nothing.  A field of a
  record that is left out has a default; a field that is there has to fit.
-/

import ClassLint.Document.Decode
import ClassLint.Record

namespace ClassLint.Document

def decodeText (d : Document) : Decode Text := do
  match ← follow d with
  | text value => return value
  | plain value => return value
  | blank => return []
  | _ => failure

def decodeBool (d : Document) : Decode Bool := do
  match ← follow d with
  | bool value => return value
  | _ => failure

def decodeOptionalText (d : Document) : Decode (Option Text) := do
  match ← follow d with
  | null => return none
  | value => some <$> value.decodeText

def decodeTexts (d : Document) : Decode (List Text) := do
  match ← follow d with
  | list items => items.mapM decodeText
  | blank => return []
  | _ => failure

def decodeEntries (d : Document) : Decode (List (Document × Document)) := do
  match ← follow d with
  | record entries => return entries
  | blank => return []
  | _ => failure

def decodeTextEntries {α : Type} (decode : Document → Decode α) (d : Document) :
    Decode (List (Text × α)) := do
  (← d.decodeEntries).mapM fun e => do return (← e.1.decodeText, ← decode e.2)

/-- The name of the field that a key stands for.  A natural number stands for
    the field at that place; there is no field of the empty name. -/
def decodeFieldName (names : List String) (key : Document) : Decode Text := do
  match ← follow key with
  | number (some place) => return (names[place]?.getD "").toList
  | key => key.decodeText

/-- For each declared field its value, or `none` where it is left out.  The
    fields may be listed by position only where the format allows it. -/
def decodeSlots (byPosition : Bool) (names : List String) (d : Document) :
    Decode (List (Option Document)) := do
  match ← follow d with
  | list items =>
    if byPosition then (Fields.positional items).slots? names else failure
  | d =>
    let entries ← (← d.decodeEntries).mapM fun e => do return (← decodeFieldName names e.1, e.2)
    (Fields.named entries).slots? names

/-- The value of a slot, or a default where it is left out. -/
def slotOr {α : Type} (default : α) (decode : Document → Decode α) : Option Document → Decode α
  | none => return default
  | some d => decode d

end ClassLint.Document
