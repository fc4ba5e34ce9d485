/-
  ClassLint.Document.Tag

  Tags: what a file says outright a value is meant as.  Four tags name the
  types of scalars that the place of a value does not decide; a tag that starts
  with an exclamation mark names a type of the file's own.
-/

import ClassLint.Text

namespace ClassLint

/-- What a value is meant as. -/
inductive Tag where
  | null
  | bool
  | integer
  | real
  /-- A type of the file's own. -/
  | own
  /-- Any other type. -/
  | other
deriving DecidableEq, Repr, Inhabited

namespace Tag

def commonStem : Text := "tag:yaml.org,2002:".toList

def scalarTags : List (Text × Tag) :=
  [("null".toList, null), ("bool".toList, bool), ("int".toList, integer), ("float".toList, real)]

/-- The tag that is spelled so.  One of the file's own counts for nothing if it
    is no text. -/
def ofBytes? (bytes : List UInt8) : Option Tag :=
  if bytes.head? = some 0x21 then
    if (Text.ofBytes? ⟨bytes.toArray⟩).isSome then some own else none
  else
    match scalarTags.find? fun e => Text.bytes (commonStem ++ e.1) == bytes with
    | some (_, tag) => some tag
    | none => some other

end Tag

end ClassLint
