/-
  ClassLint.Document.Settled

  Where the place of a value does not decide what it is, the value is settled
  first: its scalars become what their tags or their spellings say, and its
  aliases become what they stand for.
-/

import ClassLint.Document.Decode
import ClassLint.Document.Scalar

namespace ClassLint.Document

/-- The number of lists and records that may stand inside one another. -/
def maxDepth : Nat := 128

/-! ## Scalars -/

/-- An integer.  There is none that does not fit 64 bits. -/
def ofInteger? (negative : Bool) (magnitude : Nat) : Option Document :=
  if negative then
    if magnitude ≤ twoTo 63 then some (number none) else none
  else if magnitude < twoTo 64 then some (number (some magnitude)) else none

def ofScalar? (t : Text) : Option Document :=
  match Scalar.read t with
  | .null => some null
  | .bool value => some (bool value)
  | .integer negative magnitude => ofInteger? negative magnitude
  | .real => some (number none)
  | .text => some (text t)

/-- A scalar by its tag; its spelling has to fit.  A type of the file's own has
    no scalars. -/
def ofTagged? (t : Text) : Tag → Option Document
  | .null => if t ≠ [] ∧ t ∈ Scalar.nullWords then some null else none
  | .bool =>
    if t ∈ Scalar.trueWords then some (bool true)
    else if t ∈ Scalar.falseWords then some (bool false)
    else none
  | .integer => (Scalar.integer? t).bind fun n => ofInteger? n.1 n.2
  | .real => if Scalar.isReal t then some (number none) else none
  | .own => none
  | .other => some (text t)

def spelling? : Document → Option Text
  | plain value => some value
  | text value => some value
  | blank => some []
  | _ => none

/-! ## All values -/

/-- A value without a tag, settled; `inner` settles its parts, if it may have any. -/
def settleUntagged (inner : Option (Document → Decode Document)) : Document → Decode Document
  | plain t => ofScalar? t
  | blank => pure null
  | list items => do return list (← items.mapM (← inner))
  | record entries => do
    let settle ← inner
    return record (← entries.mapM fun e => do return (← settle e.1, ← settle e.2))
  | flawed => failure
  | value => pure value

def settleWith (inner : Option (Document → Decode Document)) (d : Document) :
    Decode Document := do
  match ← target d with
  | tagged tag value =>
    match value.spelling? with
    | some t => ofTagged? t tag
    | none => if tag = .own then failure else settleUntagged inner value
  | value => settleUntagged inner value

/-- The value in which every scalar is settled; it has no flawed part and no
    alias, and at most so many lists and records stand inside one another. -/
def settle : Nat → Document → Decode Document
  | 0 => settleWith none
  | depth + 1 => settleWith (some (settle depth))

end ClassLint.Document
