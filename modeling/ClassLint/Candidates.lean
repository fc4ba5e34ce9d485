/-
  ClassLint.Candidates

  The candidate tokens of a class attribute: the words of its text fragments,
  each once, in the order of their first occurrence.
-/

import ClassLint.Expression
import ClassLint.OrderedSet

namespace ClassLint.Candidates

def ofFragments (fragments : List Text) : OrderedSet Text :=
  OrderedSet.ofList (fragments.flatMap Text.words)

def ofText (value : Text) : OrderedSet Text :=
  ofFragments [value]

def ofExpression (mode : ExtractMode) (e : Expression) : OrderedSet Text :=
  ofFragments (e.pendingFragments mode)

end ClassLint.Candidates
