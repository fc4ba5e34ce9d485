/-
  ClassLint.Record

  The fields of a record as data formats write them: by name in any order, or
  by position in the order of declaration.  Names that the record does not
  declare are ignored; a declared name must not occur twice, and there must be
  no more positions than fields.
-/

import ClassLint.Text

namespace ClassLint

inductive Fields (β : Type) where
  | named (entries : List (Text × β))
  | positional (items : List β)

namespace Fields

variable {β : Type}

/-- The value of the only entry with this name, if there is one; no answer when
    there are several. -/
def unique? (name : String) (entries : List (Text × β)) : Option (Option β) :=
  match entries.filter fun e => e.1 == name.toList with
  | [] => some none
  | [e] => some (some e.2)
  | _ => none

/-- For each declared field its value, or `none` where it is left out. -/
def slots? (names : List String) : Fields β → Option (List (Option β))
  | named entries => names.mapM fun name => unique? name entries
  | positional items =>
    if items.length ≤ names.length then
      some (items.map some ++ List.replicate (names.length - items.length) none)
    else none

def isPositional : Fields β → Bool
  | named _ => false
  | positional _ => true

end Fields

end ClassLint
