/-
  ClassLint.Expression.Codec

  Expression trees as JSON.  A node is an object whose entry `type` names its
  kind, or an array with the kind in front of the fields in order.  An unknown
  kind is read as `unknown`; unknown entries are ignored.

  Reading works from the leaves up: `reading` gives for each JSON value what it
  means as an expression, as an object member and as a list of either, from
  the readings of its parts alone.
-/

import ClassLint.Expression
import ClassLint.Record

namespace ClassLint.Expression

/-! ## Writing -/

def operatorText : LogicalOperator → String
  | .and => "&&"
  | .or => "||"
  | .coalesce => "??"

def optionalText : Option Text → Json
  | some t => .text t
  | none => .null

def quasiToJson (q : Quasi) : Json :=
  .record [("cooked", optionalText q.cooked), ("raw", .text q.raw)]

def keyToJson : PropertyKey → Json
  | .literal value => .record [("type", .text "Literal".toList), ("value", value)]
  | .identifier name => .record [("type", .text "Identifier".toList), ("name", .text name)]

def node (kind : String) (fields : List (String × Json)) : Json :=
  .record (("type", .text kind.toList) :: fields)

mutual

def toJson : Expression → Json
  | literal value => node "Literal" [("value", value)]
  | template quasis holes =>
    node "TemplateLiteral"
      [("quasis", .array (quasis.map quasiToJson)), ("expressions", .array (listToJson holes))]
  | conditional test consequent alternate =>
    node "Conditional"
      [("test", toJson test), ("consequent", toJson consequent), ("alternate", toJson alternate)]
  | logical operator left right =>
    node "Logical"
      [("operator", .text (operatorText operator).toList), ("left", toJson left),
       ("right", toJson right)]
  | call callee arguments =>
    node "Call" [("callee", toJson callee), ("arguments", .array (listToJson arguments))]
  | array elements => node "ArrayLit" [("elements", .array (elementsToJson elements))]
  | object members => node "ObjectLit" [("properties", .array (membersToJson members))]
  | identifier name => node "Identifier" [("name", .text name)]
  | unknown => node "Unknown" []

def listToJson : List Expression → List Json
  | [] => []
  | e :: rest => toJson e :: listToJson rest

/-- The JSON of array elements; a missing one is null. -/
def elementsToJson : List (Option Expression) → List Json
  | [] => []
  | none :: rest => .null :: elementsToJson rest
  | some e :: rest => toJson e :: elementsToJson rest

def membersToJson : List (Member Expression) → List Json
  | [] => []
  | .property key value computed shorthand :: rest =>
    node "Property"
      [("key", keyToJson key), ("value", toJson value), ("computed", .bool computed),
       ("shorthand", .bool shorthand)] :: membersToJson rest
  | .spread argument :: rest =>
    node "Spread" [("argument", toJson argument)] :: membersToJson rest

end

/-! ## Reading: plain parts -/

def text? : Json → Option Text
  | .text t => some t
  | _ => none

def bool? : Json → Option Bool
  | .bool b => some b
  | _ => none

def optionalText? : Json → Option (Option Text)
  | .null => some none
  | .text t => some (some t)
  | _ => none

def fields? : Json → Option (Fields Json)
  | .object entries => some (.named entries)
  | .array items => some (.positional items)
  | _ => none

/-- The name of an enumeration value: a text, or an object with that name as its
    only key and nothing as its value. -/
def choice? : Json → Option Text
  | .text t => some t
  | .object [(t, .null)] => some t
  | .object [(t, .object [])] => some t
  | _ => none

def operator? (j : Json) : Option LogicalOperator := do
  let t ← choice? j
  [LogicalOperator.and, .or, .coalesce].find? fun op => (operatorText op).toList == t

/-- A template piece.  By name, the cooked text may be left out. -/
def quasi? (j : Json) : Option Quasi := do
  let fields ← fields? j
  match ← fields.slots? ["cooked", "raw"] with
  | [cooked, raw] =>
    let cooked ← match cooked with
      | some c => optionalText? c
      | none => if fields.isPositional then none else some none
    let raw ← match raw with
      | some r => text? r
      | none => some []
    some ⟨cooked, raw⟩
  | _ => none

def quasis? : Json → Option (List Quasi)
  | .array items => items.mapM quasi?
  | _ => none

/-! ## Reading: tagged nodes -/

/-- The value of the tag, and the fields beside it. -/
def tagged? {β : Type} : Fields β → Option (β × Fields β)
  | .named entries => do
    let tag ← (← Fields.unique? "type" entries)
    some (tag, .named (entries.filter fun e => e.1 != "type".toList))
  | .positional (tag :: items) => some (tag, .positional items)
  | .positional [] => none

/-- The kind that a tag names, by its text or by its place in the list of kinds.
    A tag that names none of them gives `other`. -/
def kind? (kinds : List String) (other : Option String) : Json → Option String
  | .text t => (kinds.find? fun k => k.toList == t).or other
  | .number (.integer (.ofNat n)) => (kinds[n]?).or other
  | _ => none

def key? (j : Json) : Option PropertyKey := do
  let (tag, fields) ← tagged? (← fields? j)
  match ← kind? ["Literal", "Identifier"] none tag with
  | "Literal" =>
    match ← fields.slots? ["value"] with
    | [some value] => some (.literal value.dedup)
    | _ => none
  | _ =>
    match ← fields.slots? ["name"] with
    | [some name] => (text? name).map .identifier
    | _ => none

/-- What a JSON value means in each place of a tree. -/
structure Reading where
  value : Json
  /-- As an expression. -/
  expression? : Option Expression
  /-- As a member of an object. -/
  member? : Option (Member Expression)
  /-- As the items of an array. -/
  items? : Option (List Reading)

def Reading.expressions? (r : Reading) : Option (List Expression) := do
  (← r.items?).mapM (·.expression?)

def Reading.elements? (r : Reading) : Option (List (Option Expression)) := do
  (← r.items?).mapM fun item =>
    match item.value with
    | .null => some none
    | _ => item.expression?.map some

def Reading.members? (r : Reading) : Option (List (Member Expression)) := do
  (← r.items?).mapM (·.member?)

/-- The kinds of node, in the order of their numbers. -/
def kinds : List String :=
  ["Literal", "TemplateLiteral", "Conditional", "Logical", "Call", "ArrayLit", "ObjectLit",
   "Identifier", "Unknown"]

/-- An optional field: its reading, or a default where it is left out. -/
def orDefault {α β : Type} (read : β → Option α) (default : α) : Option β → Option α
  | some value => read value
  | none => some default

def ofFields? (record : Fields Reading) : Option Expression := do
  let (tag, fields) ← tagged? record
  match ← kind? kinds (some "Unknown") tag.value with
  | "Literal" =>
    match ← fields.slots? ["value"] with
    | [some value] => some (literal value.value.dedup)
    | _ => none
  | "TemplateLiteral" =>
    match ← fields.slots? ["quasis", "expressions"] with
    | [some quasis, holes] =>
      some (template (← quasis? quasis.value) (← orDefault Reading.expressions? [] holes))
    | _ => none
  | "Conditional" =>
    match ← fields.slots? ["test", "consequent", "alternate"] with
    | [some test, some consequent, some alternate] =>
      some (conditional (← test.expression?) (← consequent.expression?) (← alternate.expression?))
    | _ => none
  | "Logical" =>
    match ← fields.slots? ["operator", "left", "right"] with
    | [some op, some left, some right] =>
      some (logical (← operator? op.value) (← left.expression?) (← right.expression?))
    | _ => none
  | "Call" =>
    match ← fields.slots? ["callee", "arguments"] with
    | [some callee, arguments] =>
      some (call (← callee.expression?) (← orDefault Reading.expressions? [] arguments))
    | _ => none
  | "ArrayLit" =>
    match ← fields.slots? ["elements"] with
    | [some elements] => elements.elements?.map array
    | _ => none
  | "ObjectLit" =>
    match ← fields.slots? ["properties"] with
    | [some members] => members.members?.map object
    | _ => none
  | "Identifier" =>
    match ← fields.slots? ["name"] with
    | [some name] => (text? name.value).map identifier
    | _ => none
  | _ =>
    match fields with
    | .positional (_ :: _) => none
    | _ => some unknown

def memberOfFields? (record : Fields Reading) : Option (Member Expression) := do
  let (tag, fields) ← tagged? record
  match ← kind? ["Property", "Spread"] none tag.value with
  | "Property" =>
    match ← fields.slots? ["key", "value", "computed", "shorthand"] with
    | [some key, some value, computed, shorthand] =>
      some (.property (← key? key.value) (← value.expression?)
        (← orDefault (fun r => bool? r.value) false computed)
        (← orDefault (fun r => bool? r.value) false shorthand))
    | _ => none
  | _ =>
    match ← fields.slots? ["argument"] with
    | [some argument] => argument.expression?.map .spread
    | _ => none

mutual

/-- What a JSON value means, from the readings of its parts. -/
def reading : Json → Reading
  | .array items =>
    let parts := readings items
    ⟨.array items, ofFields? (.positional parts), memberOfFields? (.positional parts), some parts⟩
  | .object entries =>
    let parts := entryReadings entries
    ⟨.object entries, ofFields? (.named parts), memberOfFields? (.named parts), none⟩
  | value => ⟨value, none, none, none⟩

def readings : List Json → List Reading
  | [] => []
  | item :: rest => reading item :: readings rest

def entryReadings : List (Text × Json) → List (Text × Reading)
  | [] => []
  | (key, value) :: rest => (key, reading value) :: entryReadings rest

end

/-- The expression that a JSON value inside another one means. -/
def ofNestedJson? (j : Json) : Option Expression := (reading j).expression?

/-- The expression that a JSON value means.  At the top the kind has to be given
    by its name. -/
def ofJson? (j : Json) : Option Expression := do
  let (tag, _) ← tagged? (← fields? j)
  match tag with
  | .text _ => ofNestedJson? j
  | _ => none

def manyOfJson? (j : Json) : Option (List Expression) :=
  let one := (ofNestedJson? j).map fun e => [e]
  match j with
  | .array items => (items.mapM ofNestedJson?).or one
  | _ => one

end ClassLint.Expression
