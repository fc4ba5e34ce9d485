/-
  ClassLint.Token.Arbitrary

  Utilities with a free value: `w-[100px]` is the utility `w` with the value
  `100px`.  Two readings meet here.  The shape asks for a name, a hyphen and a
  bracket that ends with the text; the split takes the last `-[`.  A valid
  arbitrary value satisfies both, with a utility from the fixed list.
-/

import ClassLint.Text

namespace ClassLint

/-- A utility together with the value written in its brackets. -/
structure Arbitrary where
  utility : Text
  value : Text
deriving DecidableEq, Repr, Inhabited

namespace Arbitrary

/-! ## The shape `name-[…]` -/

/-- What stands inside the bracket of `name-[…`, the closing bracket included,
    where the name is one or more name characters. -/
def afterOpening? (base : Text) : Option Text :=
  let name := base.takeWhile Text.isNameChar
  match base.dropWhile Text.isNameChar with
  | '[' :: body => if 2 ≤ name.length && name.getLast? == some '-' then some body else none
  | _ => none

/-- The base is a name, a hyphen and a bracket around at least one character,
    all on one line. -/
def hasShape (base : Text) : Bool :=
  match afterOpening? base with
  | some body => 2 ≤ body.length && body.getLast? == some ']' && !body.contains '\n'
  | none => false

/-- The base is a name, a hyphen and a pair of brackets with nothing between them. -/
def isEmpty (base : Text) : Bool :=
  afterOpening? base == some [']']

/-! ## The split at the last `-[` -/

/-- What stands before and behind the last `-[`. -/
def lastOpening? : Text → Option (Text × Text)
  | [] => none
  | c :: rest =>
    match lastOpening? rest with
    | some (before, behind) => some (c :: before, behind)
    | none => if c = '-' then (['['].isPrefixOf? rest).map fun behind => ([], behind) else none

/-- No bracket closes more than was opened before it, and all are closed at the end.
    The depth has no bound here, where the program counts in 32 bits. -/
def isBalanced (depth : Nat) : Text → Bool
  | [] => depth == 0
  | c :: rest =>
    if c = '[' then isBalanced (depth + 1) rest
    else if c = ']' then
      match depth with
      | 0 => false
      | d + 1 => isBalanced d rest
    else isBalanced depth rest

/-- Read `utility-[value]`: both parts non-empty and the value's brackets balanced. -/
def parse? (base : Text) : Option Arbitrary :=
  match lastOpening? base with
  | none => none
  | some (utility, behind) =>
    if base.getLast? = some ']' then
      let value := behind.dropLast
      if utility.isEmpty || value.isEmpty || !isBalanced 0 value then none
      else some ⟨utility, value⟩
    else none

/-! ## Validity -/

def utilities : List Text :=
  ["w", "h", "min-w", "min-h", "max-w", "max-h", "size",
   "p", "px", "py", "pt", "pr", "pb", "pl", "ps", "pe",
   "m", "mx", "my", "mt", "mr", "mb", "ml", "ms", "me",
   "gap", "gap-x", "gap-y", "space-x", "space-y",
   "inset", "inset-x", "inset-y", "top", "right", "bottom", "left",
   "text", "bg", "border", "border-t", "border-r", "border-b", "border-l",
   "rounded", "rounded-t", "rounded-r", "rounded-b", "rounded-l",
   "font", "leading", "tracking", "indent", "z", "order", "opacity",
   "shadow", "ring", "ring-offset", "outline", "outline-offset",
   "fill", "stroke", "from", "via", "to", "decoration", "underline-offset",
   "grid-cols", "grid-rows", "col-span", "row-span", "col-start", "col-end",
   "row-start", "row-end", "auto-cols", "auto-rows",
   "basis", "flex", "grow", "shrink", "aspect", "columns", "content",
   "translate-x", "translate-y", "rotate", "scale", "scale-x", "scale-y",
   "skew-x", "skew-y", "origin", "duration", "delay", "ease", "transition",
   "blur", "brightness", "contrast", "grayscale", "saturate", "backdrop-blur",
   "scroll-m", "scroll-p", "line-clamp", "list", "cursor", "will-change"].map String.toList

def acceptsUtility (utility : Text) : Bool :=
  -- a negative utility shares the entry of the positive one
  utilities.contains ((['-'].isPrefixOf? utility).getD utility)

def isValid (base : Text) : Bool :=
  hasShape base &&
    match parse? base with
    | some a => acceptsUtility a.utility && !(Text.trim a.value).isEmpty
    | none => false

end Arbitrary

end ClassLint
