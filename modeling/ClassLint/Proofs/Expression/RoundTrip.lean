/-
  ClassLint.Proofs.Expression.RoundTrip

  Expression trees survive being written and read: first each kind of node on
  the fields that are written for it, then all trees by induction, then the
  trees that any value is read as.
-/

import ClassLint.Proofs.Expression.Distinct

namespace ClassLint.Expression

/-! ## The reading of what is written -/

theorem reading_value (j : Json) : (reading j).value = j := by
  cases j <;> rfl

theorem readings_eq_map (items : List Json) : readings items = items.map reading := by
  induction items with
  | nil => rfl
  | cons item rest ih => rw [readings, ih, List.map_cons]

theorem entryReadings_eq_map (entries : List (Text × Json)) :
    entryReadings entries = entries.map fun e => (e.1, reading e.2) := by
  induction entries with
  | nil => rfl
  | cons e rest ih => rw [entryReadings, ih, List.map_cons]

theorem items?_array (items : List Json) :
    (reading (.array items)).items? = some (items.map reading) := by
  rw [← readings_eq_map]
  rfl

/-- The readings of the entries of a node. -/
def nodeParts (kind : String) (fields : List (String × Json)) : Fields Reading :=
  .named (("type".toList, reading (.text kind.toList))
    :: fields.map fun f => (f.1.toList, reading f.2))

theorem reading_node (kind : String) (fields : List (String × Json)) :
    reading (node kind fields) =
      ⟨node kind fields, ofFields? (nodeParts kind fields), memberOfFields? (nodeParts kind fields),
        none⟩ := by
  simp only [node, Json.record, reading, entryReadings_eq_map, nodeParts, List.map_cons,
    List.map_map]
  rfl

theorem expression?_node (kind : String) (fields : List (String × Json)) :
    (reading (node kind fields)).expression? = ofFields? (nodeParts kind fields) := by
  rw [reading_node]

theorem member?_node (kind : String) (fields : List (String × Json)) :
    (reading (node kind fields)).member? = memberOfFields? (nodeParts kind fields) := by
  rw [reading_node]

/-! The readers of the kinds, on the fields that are written. -/

section Kinds

variable (a b c d : Reading)

/-- The entry with the kind of a node. -/
def tag (kind : String) : Text × Reading := ("type".toList, reading (.text kind.toList))

theorem ofFields?_literal :
    ofFields? (.named [tag "Literal", ("value".toList, a)]) = some (literal a.value.dedup) :=
  rfl

theorem ofFields?_template :
    ofFields? (.named [tag "TemplateLiteral", ("quasis".toList, a), ("expressions".toList, b)]) =
      (do some (template (← quasis? a.value) (← b.expressions?))) :=
  rfl

theorem ofFields?_conditional :
    ofFields? (.named [tag "Conditional", ("test".toList, a), ("consequent".toList, b),
      ("alternate".toList, c)]) =
      (do some (conditional (← a.expression?) (← b.expression?) (← c.expression?))) :=
  rfl

theorem ofFields?_logical :
    ofFields? (.named [tag "Logical", ("operator".toList, a), ("left".toList, b),
      ("right".toList, c)]) =
      (do some (logical (← operator? a.value) (← b.expression?) (← c.expression?))) :=
  rfl

theorem ofFields?_call :
    ofFields? (.named [tag "Call", ("callee".toList, a), ("arguments".toList, b)]) =
      (do some (call (← a.expression?) (← b.expressions?))) :=
  rfl

theorem ofFields?_array :
    ofFields? (.named [tag "ArrayLit", ("elements".toList, a)]) = a.elements?.map array :=
  rfl

theorem ofFields?_object :
    ofFields? (.named [tag "ObjectLit", ("properties".toList, a)]) = a.members?.map object :=
  rfl

theorem ofFields?_identifier :
    ofFields? (.named [tag "Identifier", ("name".toList, a)]) =
      (text? a.value).map identifier :=
  rfl

theorem memberOfFields?_property :
    memberOfFields? (.named [tag "Property", ("key".toList, a), ("value".toList, b),
      ("computed".toList, c), ("shorthand".toList, d)]) =
      (do some (.property (← key? a.value) (← b.expression?) (← bool? c.value)
        (← bool? d.value))) :=
  rfl

theorem memberOfFields?_spread :
    memberOfFields? (.named [tag "Spread", ("argument".toList, a)]) =
      a.expression?.map .spread :=
  rfl

end Kinds

/-! The parts that are no expressions. -/

theorem quasi?_quasiToJson (q : Quasi) : quasi? (quasiToJson q) = some q := by
  obtain ⟨cooked, raw⟩ := q
  have hrecord : quasiToJson ⟨cooked, raw⟩
      = .object [("cooked".toList, optionalText cooked), ("raw".toList, .text raw)] := rfl
  rw [hrecord]
  cases cooked with
  | none => rfl
  | some t => rfl

theorem quasis?_map_quasiToJson (quasis : List Quasi) :
    quasis? (.array (quasis.map quasiToJson)) = some quasis := by
  show (quasis.map quasiToJson).mapM quasi? = some quasis
  induction quasis with
  | nil => rfl
  | cons q rest ih => simp [List.mapM_cons, quasi?_quasiToJson, ih]

theorem operator?_operatorText (op : LogicalOperator) :
    operator? (.text (operatorText op).toList) = some op := by
  cases op <;> rfl

theorem key?_keyToJson {key : PropertyKey} (h : keyDistinct key = true) :
    key? (keyToJson key) = some key := by
  cases key with
  | literal value =>
    have hrecord : keyToJson (.literal value)
        = .object [("type".toList, .text "Literal".toList), ("value".toList, value)] := rfl
    have hread : key? (.object [("type".toList, .text "Literal".toList), ("value".toList, value)])
        = some (.literal value.dedup) := rfl
    rw [hrecord, hread, Json.dedup_of_distinctKeys h]
  | identifier name =>
    have hrecord : keyToJson (.identifier name)
        = .object [("type".toList, .text "Identifier".toList), ("name".toList, .text name)] := rfl
    rw [hrecord]
    rfl

/-! Lists. -/

theorem expressions?_array (items : List Json) :
    (reading (.array items)).expressions? = items.mapM fun j => (reading j).expression? := by
  simp only [Reading.expressions?, items?_array]
  exact List.mapM_map ..

/-- An array element: null is a missing one. -/
def element? (j : Json) : Option (Option Expression) :=
  match j with
  | .null => some none
  | _ => (reading j).expression?.map some

theorem elements?_array (items : List Json) :
    (reading (.array items)).elements? = items.mapM element? := by
  simp only [Reading.elements?, items?_array]
  refine (List.mapM_map ..).trans ?_
  congr 1
  funext j
  cases j <;> rfl

theorem members?_array (items : List Json) :
    (reading (.array items)).members? = items.mapM fun j => (reading j).member? := by
  simp only [Reading.members?, items?_array]
  exact List.mapM_map ..

/-- No tree is written as null. -/
theorem element?_toJson (e : Expression) :
    element? (toJson e) = (reading (toJson e)).expression?.map some := by
  cases e <;> rfl

-- The induction is on the tree; its lists of trees are read by induction of their own.
mutual

/-- An expression that is written is read back. -/
theorem expression?_toJson :
    ∀ {e : Expression}, e.distinctKeys = true → (reading (toJson e)).expression? = some e
  | literal value, h => by
    rw [toJson, expression?_node]
    refine (ofFields?_literal _).trans ?_
    rw [reading_value, Json.dedup_of_distinctKeys h]
  | template quasis holes, h => by
    rw [toJson, expression?_node]
    refine (ofFields?_template _ _).trans ?_
    rw [reading_value, quasis?_map_quasiToJson, expressions?_array, mapM_listToJson h]
    rfl
  | conditional test consequent alternate, h => by
    simp only [distinctKeys, Bool.and_eq_true] at h
    rw [toJson, expression?_node]
    refine (ofFields?_conditional _ _ _).trans ?_
    rw [expression?_toJson h.1.1, expression?_toJson h.1.2, expression?_toJson h.2]
    rfl
  | logical op left right, h => by
    simp only [distinctKeys, Bool.and_eq_true] at h
    rw [toJson, expression?_node]
    refine (ofFields?_logical _ _ _).trans ?_
    rw [reading_value, operator?_operatorText, expression?_toJson h.1, expression?_toJson h.2]
    rfl
  | call callee arguments, h => by
    simp only [distinctKeys, Bool.and_eq_true] at h
    rw [toJson, expression?_node]
    refine (ofFields?_call _ _).trans ?_
    rw [expression?_toJson h.1, expressions?_array, mapM_listToJson h.2]
    rfl
  | array elements, h => by
    rw [toJson, expression?_node]
    refine (ofFields?_array _).trans ?_
    rw [elements?_array, mapM_elementsToJson h]
    rfl
  | object members, h => by
    rw [toJson, expression?_node]
    refine (ofFields?_object _).trans ?_
    rw [members?_array, mapM_membersToJson h]
    rfl
  | identifier name, _ => by
    rw [toJson, expression?_node]
    exact ofFields?_identifier _
  | unknown, _ => by
    rw [toJson, expression?_node]
    rfl

theorem mapM_listToJson :
    ∀ {es : List Expression}, listDistinct es = true →
      (listToJson es).mapM (fun j => (reading j).expression?) = some es
  | [], _ => rfl
  | e :: rest, h => by
    simp only [listDistinct, Bool.and_eq_true] at h
    rw [listToJson, List.mapM_cons, expression?_toJson h.1, mapM_listToJson h.2]
    rfl

theorem mapM_elementsToJson :
    ∀ {elements : List (Option Expression)}, elementsDistinct elements = true →
      (elementsToJson elements).mapM element? = some elements
  | [], _ => rfl
  | none :: rest, h => by
    have hrest : elementsDistinct rest = true := h
    rw [elementsToJson, List.mapM_cons, mapM_elementsToJson hrest]
    rfl
  | some e :: rest, h => by
    simp only [elementsDistinct, Bool.and_eq_true] at h
    rw [elementsToJson, List.mapM_cons, element?_toJson, expression?_toJson h.1,
      mapM_elementsToJson h.2]
    rfl

theorem mapM_membersToJson :
    ∀ {members : List (Member Expression)}, membersDistinct members = true →
      (membersToJson members).mapM (fun j => (reading j).member?) = some members
  | [], _ => rfl
  | .property key value computed shorthand :: rest, h => by
    simp only [membersDistinct, memberDistinct, Bool.and_eq_true] at h
    rw [membersToJson, List.mapM_cons, mapM_membersToJson h.2, member?_node]
    have hmember : memberOfFields? (nodeParts "Property" [("key", keyToJson key),
        ("value", toJson value), ("computed", .bool computed), ("shorthand", .bool shorthand)])
        = some (.property key value computed shorthand) := by
      refine (memberOfFields?_property _ _ _ _).trans ?_
      rw [reading_value, key?_keyToJson h.1.1, expression?_toJson h.1.2]
      rfl
    rw [hmember]
    rfl
  | .spread argument :: rest, h => by
    simp only [membersDistinct, memberDistinct, Bool.and_eq_true] at h
    rw [membersToJson, List.mapM_cons, mapM_membersToJson h.2, member?_node]
    have hmember : memberOfFields? (nodeParts "Spread" [("argument", toJson argument)])
        = some (.spread argument) := by
      refine (memberOfFields?_spread _).trans ?_
      rw [expression?_toJson h.1]
      rfl
    rw [hmember]
    rfl

end

/-! ## The round trip -/

/-- A node is read the same way at the top, since its kind is given by its name. -/
theorem ofJson?_node (kind : String) {fields : List (String × Json)}
    (h : (fields.all fun f => f.1 != "type") = true) :
    ofJson? (node kind fields) = ofNestedJson? (node kind fields) := by
  have hothers : (fields.map fun f => (f.1.toList, f.2)).filter
      (fun e => e.1 == "type".toList) = [] := by
    rw [List.filter_eq_nil_iff]
    intro e he heq
    obtain ⟨f, hf, rfl⟩ := List.mem_map.mp he
    have hne : f.1 ≠ "type" := bne_iff_ne.mp (List.all_eq_true.mp h f hf)
    exact hne (String.toList_injective (eq_of_beq heq))
  have hunique : Fields.unique? "type"
      (("type".toList, Json.text kind.toList) :: fields.map fun f => (f.1.toList, f.2))
      = some (some (.text kind.toList)) := by
    simp only [Fields.unique?, List.filter_cons, BEq.rfl, if_pos, hothers]
  have htagged : tagged? (.named
      (("type".toList, Json.text kind.toList) :: fields.map fun f => (f.1.toList, f.2)))
      = some (.text kind.toList, .named
        ((("type".toList, Json.text kind.toList) :: fields.map fun f => (f.1.toList, f.2)).filter
          fun e => e.1 != "type".toList)) := by
    rw [tagged?, hunique]
    rfl
  have hfields : fields? (node kind fields) = some (.named
      (("type".toList, Json.text kind.toList) :: fields.map fun f => (f.1.toList, f.2))) := rfl
  simp only [ofJson?, hfields, Option.bind_eq_bind, Option.bind_some, htagged]

theorem ofJson?_toJson {e : Expression} (h : e.distinctKeys = true) :
    ofJson? (toJson e) = some e := by
  have htop : ofJson? (toJson e) = ofNestedJson? (toJson e) := by
    cases e <;> exact ofJson?_node _ rfl
  rw [htop]
  exact expression?_toJson h

theorem ofNestedJson?_of_ofJson? {j : Json} {e : Expression} (h : ofJson? j = some e) :
    ofNestedJson? j = some e := by
  obtain ⟨fields, _, h⟩ := Option.bind_eq_some_iff.mp h
  obtain ⟨⟨tag, _⟩, _, h⟩ := Option.bind_eq_some_iff.mp h
  cases tag with
  | text t => exact h
  | null | bool | number | array | object => exact absurd h nofun

/-- **Trees survive being written.**  A tree whose literal values hold each key once is
    read back from the value it is written as, at the top and inside another value.
    Whatever reads as a tree, in either place, reads as such a tree; so reading what
    that tree is written as gives the tree again. -/
theorem toJson_roundTrip :
    (∀ e : Expression, e.distinctKeys = true →
        ofJson? (toJson e) = some e ∧ ofNestedJson? (toJson e) = some e)
      ∧ ∀ (j : Json) (e : Expression), ofJson? j = some e ∨ ofNestedJson? j = some e →
        e.distinctKeys = true ∧ ofJson? (toJson e) = some e
          ∧ ofNestedJson? (toJson e) = some e := by
  have hwritten : ∀ e : Expression, e.distinctKeys = true →
      ofJson? (toJson e) = some e ∧ ofNestedJson? (toJson e) = some e :=
    fun e h => ⟨ofJson?_toJson h, expression?_toJson h⟩
  refine ⟨hwritten, ?_⟩
  intro j e h
  have hread : ofNestedJson? j = some e := h.elim ofNestedJson?_of_ofJson? id
  have hdistinct : e.distinctKeys = true := (sound_reading j).expression e hread
  exact ⟨hdistinct, hwritten e hdistinct⟩

/-- A list with a hole, a node of a kind that is not known, a node in array form and a
    call that leaves out its arguments. -/
def irregular : Json :=
  .object [("kind".toList, .ofNat 1), ("type".toList, .text "ArrayLit".toList),
    ("elements".toList, .array
      [.null, .object [("type".toList, .text "Await".toList), ("of".toList, .null)],
        .array [.text "Literal".toList, .object [("a".toList, .null), ("a".toList, .bool true)]],
        .object [("callee".toList, .array [.ofNat 7, .text "cn".toList]),
          ("type".toList, .text "Call".toList)]])]

/-- The tree of `irregular`. -/
def irregularTree : Expression :=
  array [none, some unknown, some (literal (.object [("a".toList, .bool true)])),
    some (call (identifier "cn".toList) [])]

theorem toJson_roundTrip_irregular :
    ofJson? irregular = some irregularTree ∧ ofJson? (toJson irregularTree) = some irregularTree :=
  ⟨rfl, (toJson_roundTrip.2 irregular irregularTree (Or.inl rfl)).2.1⟩

end ClassLint.Expression
