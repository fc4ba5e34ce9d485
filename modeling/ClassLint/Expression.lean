/-
  ClassLint.Expression

  Expression trees of class attributes, in the common form that template and
  script dialects are reduced to.  `Expression.fragments` collects every string
  the expression could contribute without evaluating anything:

  * a string literal gives itself, a template without holes its cooked text;
  * a conditional gives both arms, a logical expression both operands;
  * a call gives its arguments, an array its elements;
  * an object gives its keys or its values, as the mode says;
  * everything else gives nothing.

  `Expression.pendingFragments` computes the same list for trees of any depth
  with a list of pending nodes in place of nested calls.
-/

import ClassLint.Json

namespace ClassLint

/-- One piece of a template literal; a piece with a malformed escape has no cooked text. -/
structure Quasi where
  cooked : Option Text
  raw : Text
deriving DecidableEq, Repr, Inhabited

/-- The operators that choose between two operands. -/
inductive LogicalOperator where
  | and
  | or
  | coalesce
deriving DecidableEq, Repr, Inhabited

inductive PropertyKey where
  | literal (value : Json)
  | identifier (name : Text)
deriving Repr, Inhabited

/-- A member of an object literal over values of type `ε`. -/
inductive Member (ε : Type) where
  | property (key : PropertyKey) (value : ε) (computed shorthand : Bool)
  | spread (argument : ε)
deriving Repr, Inhabited

inductive Expression where
  | literal (value : Json)
  | template (quasis : List Quasi) (holes : List Expression)
  | conditional (test consequent alternate : Expression)
  | logical (operator : LogicalOperator) (left right : Expression)
  | call (callee : Expression) (arguments : List Expression)
  /-- An element may be missing, as the second in `[a, , b]`. -/
  | array (elements : List (Option Expression))
  | object (members : List (Member Expression))
  | identifier (name : Text)
  /-- Any other kind of node. -/
  | unknown
deriving Repr, Inhabited

/-- What an object literal contributes. -/
inductive ExtractMode where
  /-- The keys are class strings, as in `{ "font-bold": isActive }`. -/
  | keys
  /-- The values hold class strings, as in `{ root: "p-4" }`. -/
  | values
deriving DecidableEq, Repr, Inhabited

namespace Expression

/-! ## Contributions of a single node -/

def literalText? : Json → Option Text
  | .text value => some value
  | _ => none

/-- The text of a template: it has no holes and exactly one piece, whose text is known. -/
def templateText? (quasis : List Quasi) (holes : List Expression) : Option Text :=
  match quasis, holes with
  | [quasi], [] => quasi.cooked
  | _, _ => none

/-- The name that a member contributes as a key: a string or identifier key that
    is not computed. -/
def keyText? {ε : Type} : Member ε → Option Text
  | .property (.literal value) _ false _ => literalText? value
  | .property (.identifier name) _ false _ => some name
  | _ => none

def memberValue? {ε : Type} : Member ε → Option ε
  | .property _ value _ _ => some value
  | .spread _ => none

/-! ## Recursive reading -/

mutual

/-- The strings an expression contributes, left to right. -/
def fragments (mode : ExtractMode) : Expression → List Text
  | literal value => (literalText? value).toList
  | template quasis holes => (templateText? quasis holes).toList
  | conditional _ consequent alternate => fragments mode consequent ++ fragments mode alternate
  | logical _ left right => fragments mode left ++ fragments mode right
  | call _ arguments => listFragments mode arguments
  | array elements => elementFragments mode elements
  | object members =>
    match mode with
    | .keys => members.filterMap keyText?
    | .values => memberFragments mode members
  | identifier _ => []
  | unknown => []

def listFragments (mode : ExtractMode) : List Expression → List Text
  | [] => []
  | e :: rest => fragments mode e ++ listFragments mode rest

/-- The contributions of array elements; a missing one has none. -/
def elementFragments (mode : ExtractMode) : List (Option Expression) → List Text
  | [] => []
  | none :: rest => elementFragments mode rest
  | some e :: rest => fragments mode e ++ elementFragments mode rest

/-- The contributions of the values of an object; a spread has none. -/
def memberFragments (mode : ExtractMode) : List (Member Expression) → List Text
  | [] => []
  | .property _ value _ _ :: rest => fragments mode value ++ memberFragments mode rest
  | .spread _ :: rest => memberFragments mode rest

end

/-! ## Reading with pending nodes -/

mutual

/-- The number of nodes that reading an expression can visit. -/
def weight : Expression → Nat
  | conditional _ consequent alternate => weight consequent + weight alternate + 1
  | logical _ left right => weight left + weight right + 1
  | call _ arguments => listWeight arguments + 1
  | array elements => elementWeight elements + 1
  | object members => memberWeight members + 1
  | _ => 1

def listWeight : List Expression → Nat
  | [] => 0
  | e :: rest => weight e + listWeight rest

def elementWeight : List (Option Expression) → Nat
  | [] => 0
  | none :: rest => elementWeight rest
  | some e :: rest => weight e + elementWeight rest

def memberWeight : List (Member Expression) → Nat
  | [] => 0
  | .property _ value _ _ :: rest => weight value + memberWeight rest
  | .spread _ :: rest => memberWeight rest

end

theorem listWeight_append (xs ys : List Expression) :
    listWeight (xs ++ ys) = listWeight xs + listWeight ys := by
  induction xs with
  | nil => simp [listWeight]
  | cons x xs ih => simp only [List.cons_append, listWeight, ih, Nat.add_assoc]

theorem listWeight_elements (elements : List (Option Expression)) :
    listWeight (elements.filterMap id) = elementWeight elements := by
  induction elements with
  | nil => rfl
  | cons e rest ih =>
    cases e with
    | none => exact ih
    | some e => exact congrArg (weight e + ·) ih

theorem listWeight_members (members : List (Member Expression)) :
    listWeight (members.filterMap memberValue?) = memberWeight members := by
  induction members with
  | nil => rfl
  | cons m rest ih =>
    cases m <;> simp [List.filterMap_cons, listWeight, memberWeight, memberValue?, ih]

/-- The nodes to read next in place of an expression. -/
def children (mode : ExtractMode) : Expression → List Expression
  | conditional _ consequent alternate => [consequent, alternate]
  | logical _ left right => [left, right]
  | call _ arguments => arguments
  | array elements => elements.filterMap id
  | object members =>
    match mode with
    | .keys => []
    | .values => members.filterMap memberValue?
  | _ => []

/-- The strings an expression contributes itself. -/
def ownFragments (mode : ExtractMode) : Expression → List Text
  | literal value => (literalText? value).toList
  | template quasis holes => (templateText? quasis holes).toList
  | object members =>
    match mode with
    | .keys => members.filterMap keyText?
    | .values => []
  | _ => []

theorem listWeight_children (mode : ExtractMode) (e : Expression) :
    listWeight (children mode e) < weight e := by
  cases e with
  | conditional _ consequent alternate => simp only [children, listWeight, weight]; omega
  | logical _ left right => simp only [children, listWeight, weight]; omega
  | call _ arguments => simp only [children, weight]; omega
  | array elements => simp only [children, listWeight_elements, weight]; omega
  | object members =>
    cases mode with
    | keys => simp only [children, listWeight, weight]; omega
    | values => simp only [children, listWeight_members, weight]; omega
  | literal | template | identifier | unknown => simp only [children, listWeight, weight]; omega

/-- Read the pending expressions, first to last; `read` is what was read before, last first. -/
def readPending (mode : ExtractMode) (read : List Text) : List Expression → List Text
  | [] => read.reverse
  | e :: pending =>
    readPending mode ((ownFragments mode e).reverse ++ read) (children mode e ++ pending)
termination_by pending => listWeight pending
decreasing_by
  rw [listWeight_append]
  simp only [listWeight]
  have := listWeight_children mode e
  omega

/-- The strings an expression contributes, read without nested calls. -/
def pendingFragments (mode : ExtractMode) (e : Expression) : List Text :=
  readPending mode [] [e]

end Expression

end ClassLint
