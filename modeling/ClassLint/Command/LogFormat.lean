/-
  ClassLint.Command.LogFormat

  The form of log messages, as it is named in the environment.
-/

import ClassLint.Text

namespace ClassLint

inductive LogFormat where
  | text
  | json
deriving DecidableEq, Repr, Inhabited

/-- The form that a value names.  Upper and lower case of the letters A to Z
    count as one; no other letter counts as one of `json`. -/
def LogFormat.ofText (value : Text) : LogFormat :=
  if value.map Char.toLower = "json".toList then json else text

def LogFormat.name : LogFormat → Text
  | text => "text".toList
  | json => "json".toList

end ClassLint
