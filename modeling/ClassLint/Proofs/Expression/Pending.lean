/-
  ClassLint.Proofs.Expression.Pending

  Reading with pending nodes gives what the recursive reading gives.  A step
  takes the first pending expression, keeps what it contributes itself and puts
  its parts in its place.  The texts read so far, followed by what the pending
  expressions contribute, are the same list before and after a step; in the end
  nothing is pending, and they are all read.

  What an expression does not contribute has no say in it either: conditions,
  callees and spread arguments may be taken out before reading.
-/

import ClassLint.Expression

namespace ClassLint.Expression

variable {mode : ExtractMode}

/-! ## A single node -/

theorem listFragments_append (xs ys : List Expression) :
    listFragments mode (xs ++ ys) = listFragments mode xs ++ listFragments mode ys := by
  induction xs with
  | nil => rfl
  | cons x xs ih => rw [List.cons_append, listFragments, listFragments, ih, List.append_assoc]

theorem listFragments_elements (elements : List (Option Expression)) :
    listFragments mode (elements.filterMap id) = elementFragments mode elements := by
  induction elements with
  | nil => rfl
  | cons element rest ih =>
    cases element with
    | none => exact ih
    | some e => exact congrArg (fragments mode e ++ ·) ih

theorem listFragments_members (members : List (Member Expression)) :
    listFragments mode (members.filterMap memberValue?) = memberFragments mode members := by
  induction members with
  | nil => rfl
  | cons member rest ih =>
    cases member with
    | property key value computed shorthand => exact congrArg (fragments mode value ++ ·) ih
    | spread argument => exact ih

/-- An expression contributes its own texts, then those of its parts. -/
theorem fragments_eq (e : Expression) :
    fragments mode e = ownFragments mode e ++ listFragments mode (children mode e) := by
  cases e with
  | conditional test consequent alternate => simp [fragments, ownFragments, children, listFragments]
  | logical operator left right => simp [fragments, ownFragments, children, listFragments]
  | call callee arguments => rfl
  | array elements => exact (listFragments_elements elements).symm
  | object members =>
    cases mode with
    | keys => simp [fragments, ownFragments, children, listFragments]
    | values => exact (listFragments_members members).symm
  | literal | template | identifier | unknown =>
    simp [fragments, ownFragments, children, listFragments]

/-! ## Steps and runs -/

/-- A step moves the own texts of an expression from the pending side to the read one. -/
theorem listFragments_step (read : List Text) (e : Expression) (pending : List Expression) :
    ((ownFragments mode e).reverse ++ read).reverse
        ++ listFragments mode (children mode e ++ pending)
      = read.reverse ++ listFragments mode (e :: pending) := by
  have hnode : listFragments mode (e :: pending)
      = ownFragments mode e ++ (listFragments mode (children mode e) ++ listFragments mode pending) := by
    rw [listFragments, fragments_eq, List.append_assoc]
  rw [hnode, listFragments_append, List.reverse_append, List.reverse_reverse, List.append_assoc]

/-- A run reads what is pending behind what is read. -/
theorem readPending_eq (read : List Text) (pending : List Expression) :
    readPending mode read pending = read.reverse ++ listFragments mode pending := by
  induction read, pending using readPending.induct mode with
  | case1 read => rw [readPending, listFragments, List.append_nil]
  | case2 read e pending ih => rw [readPending, ih, listFragments_step]

theorem pendingFragments_eq (e : Expression) : pendingFragments mode e = fragments mode e := by
  rw [pendingFragments, readPending_eq, listFragments, listFragments]
  simp

/-! ## Parts that are never read -/

mutual

/-- The expression without its conditions, callees and spread arguments. -/
def bare : Expression → Expression
  | conditional _ consequent alternate => conditional unknown (bare consequent) (bare alternate)
  | logical operator left right => logical operator (bare left) (bare right)
  | call _ arguments => call unknown (bareList arguments)
  | array elements => array (bareElements elements)
  | object members => object (bareMembers members)
  | e => e

/-- `bare` for each expression of a list. -/
def bareList : List Expression → List Expression
  | [] => []
  | e :: rest => bare e :: bareList rest

/-- `bare` for each array element. -/
def bareElements : List (Option Expression) → List (Option Expression)
  | [] => []
  | none :: rest => none :: bareElements rest
  | some e :: rest => some (bare e) :: bareElements rest

/-- `bare` for the value of each property; a spread is left without its argument. -/
def bareMembers : List (Member Expression) → List (Member Expression)
  | [] => []
  | .property key value computed shorthand :: rest =>
    .property key (bare value) computed shorthand :: bareMembers rest
  | .spread _ :: rest => .spread unknown :: bareMembers rest

end

theorem filterMap_keyText?_bareMembers (members : List (Member Expression)) :
    (bareMembers members).filterMap keyText? = members.filterMap keyText? := by
  induction members with
  | nil => rfl
  | cons member rest ih =>
    cases member with
    | property key value computed shorthand =>
      have hkey : keyText? (.property key (bare value) computed shorthand)
          = keyText? (.property key value computed shorthand) := by
        cases key <;> cases computed <;> rfl
      rw [bareMembers, List.filterMap_cons, List.filterMap_cons, hkey, ih]
    | spread argument => exact ih

mutual

theorem fragments_bare : ∀ e : Expression, fragments mode (bare e) = fragments mode e
  | conditional _ consequent alternate => by
    rw [bare, fragments, fragments, fragments_bare consequent, fragments_bare alternate]
  | logical _ left right => by
    rw [bare, fragments, fragments, fragments_bare left, fragments_bare right]
  | call _ arguments => by
    rw [bare, fragments, fragments, listFragments_bare arguments]
  | array elements => by
    rw [bare, fragments, fragments, elementFragments_bare elements]
  | object members => by
    simp only [bare, fragments, filterMap_keyText?_bareMembers, memberFragments_bare members]
  | literal _ => rfl
  | template _ _ => rfl
  | identifier _ => rfl
  | unknown => rfl

theorem listFragments_bare : ∀ es : List Expression,
    listFragments mode (bareList es) = listFragments mode es
  | [] => rfl
  | e :: rest => by
    rw [bareList, listFragments, listFragments, fragments_bare e, listFragments_bare rest]

theorem elementFragments_bare : ∀ elements : List (Option Expression),
    elementFragments mode (bareElements elements) = elementFragments mode elements
  | [] => rfl
  | none :: rest => by
    rw [bareElements, elementFragments, elementFragments, elementFragments_bare rest]
  | some e :: rest => by
    rw [bareElements, elementFragments, elementFragments, fragments_bare e,
      elementFragments_bare rest]

theorem memberFragments_bare : ∀ members : List (Member Expression),
    memberFragments mode (bareMembers members) = memberFragments mode members
  | [] => rfl
  | .property _ value _ _ :: rest => by
    rw [bareMembers, memberFragments, memberFragments, fragments_bare value,
      memberFragments_bare rest]
  | .spread _ :: rest => by
    rw [bareMembers, memberFragments, memberFragments, memberFragments_bare rest]

end

end ClassLint.Expression
