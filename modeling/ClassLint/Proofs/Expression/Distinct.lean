/-
  ClassLint.Proofs.Expression.Distinct

  The literal values of an expression tree are values that a program holds, in
  which an object has each key once.  Whatever is read as a tree has such
  values, however its keys were written.
-/

import ClassLint.Expression.Codec
import ClassLint.Proofs.Json.Keys

namespace ClassLint.Expression

/-! ## Trees with distinct keys -/

/-- `distinctKeys` for the literal of a property key. -/
def keyDistinct : PropertyKey → Bool
  | .literal value => value.distinctKeys
  | .identifier _ => true

mutual

/-- Every object in a literal value of the tree holds each key once. -/
def distinctKeys : Expression → Bool
  | literal value => value.distinctKeys
  | template _ holes => listDistinct holes
  | conditional test consequent alternate =>
    distinctKeys test && distinctKeys consequent && distinctKeys alternate
  | logical _ left right => distinctKeys left && distinctKeys right
  | call callee arguments => distinctKeys callee && listDistinct arguments
  | array elements => elementsDistinct elements
  | object members => membersDistinct members
  | identifier _ => true
  | unknown => true

/-- `distinctKeys` for every expression of a list. -/
def listDistinct : List Expression → Bool
  | [] => true
  | e :: rest => distinctKeys e && listDistinct rest

/-- `distinctKeys` for every array element that is there. -/
def elementsDistinct : List (Option Expression) → Bool
  | [] => true
  | none :: rest => elementsDistinct rest
  | some e :: rest => distinctKeys e && elementsDistinct rest

/-- `distinctKeys` for the key and the value of a member. -/
def memberDistinct : Member Expression → Bool
  | .property key value _ _ => keyDistinct key && distinctKeys value
  | .spread argument => distinctKeys argument

/-- `memberDistinct` for every member of an object. -/
def membersDistinct : List (Member Expression) → Bool
  | [] => true
  | m :: rest => memberDistinct m && membersDistinct rest

end

/-! ## What is read has distinct keys -/

/-- Where a value means an expression or a member, the keys in it are distinct. -/
structure Reading.Distinct (r : Reading) : Prop where
  expression : ∀ e, r.expression? = some e → e.distinctKeys = true
  member : ∀ m, r.member? = some m → memberDistinct m = true

/-- The keys are distinct in what a value means, and in what its items mean. -/
structure Reading.Sound (r : Reading) : Prop extends Reading.Distinct r where
  items : ∀ parts, r.items? = some parts → ∀ part ∈ parts, part.Distinct

/-- Every field satisfies the predicate. -/
def All {β : Type} (P : β → Prop) : Fields β → Prop
  | .named entries => ∀ e ∈ entries, P e.2
  | .positional items => ∀ item ∈ items, P item

/-- Every result of a reader on a list is its result on some item. -/
theorem exists_of_mem_mapM {α β : Type} {f : α → Option β} {xs : List α} {ys : List β}
    (h : xs.mapM f = some ys) {y : β} (hy : y ∈ ys) : ∃ x ∈ xs, f x = some y := by
  induction xs generalizing ys with
  | nil =>
    obtain rfl : [] = ys := Option.some.inj h
    exact absurd hy List.not_mem_nil
  | cons x xs ih =>
    simp only [List.mapM_cons, Option.bind_eq_bind, Option.bind_eq_some_iff, Option.pure_def,
      Option.some.injEq] at h
    obtain ⟨z, hz, zs, hzs, rfl⟩ := h
    cases hy with
    | head => exact ⟨x, List.mem_cons_self, hz⟩
    | tail _ hy =>
      obtain ⟨w, hw, hwy⟩ := ih hzs hy
      exact ⟨w, List.mem_cons_of_mem x hw, hwy⟩

section Slots

variable {β : Type} {P : β → Prop} {fields : Fields β}

theorem All.tagged? {fields rest : Fields β} {tag : β} (h : All P fields)
    (htagged : Expression.tagged? fields = some (tag, rest)) : All P rest := by
  cases fields with
  | named entries =>
    simp only [Expression.tagged?, Option.bind_eq_bind, Option.bind_eq_some_iff,
      Option.some.injEq, Prod.mk.injEq] at htagged
    obtain ⟨_, _, _, _, _, rfl⟩ := htagged
    exact fun e he => h e (List.mem_filter.mp he).1
  | positional items =>
    cases items with
    | nil => exact absurd htagged (by simp [Expression.tagged?])
    | cons item items =>
      simp only [Expression.tagged?, Option.some.injEq, Prod.mk.injEq] at htagged
      obtain ⟨_, rfl⟩ := htagged
      exact fun x hx => h x (List.mem_cons_of_mem _ hx)

theorem All.unique? {entries : List (Text × β)} {name : String} {x : β}
    (h : ∀ e ∈ entries, P e.2) (hunique : Fields.unique? name entries = some (some x)) : P x := by
  unfold Fields.unique? at hunique
  split at hunique
  · exact absurd hunique (by simp)
  · next e hfilter =>
    have he : e ∈ entries.filter fun e => e.1 == name.toList := by
      rw [hfilter]
      exact List.mem_singleton_self e
    obtain rfl : e.2 = x := Option.some.inj (Option.some.inj hunique)
    exact h e (List.mem_filter.mp he).1
  · exact absurd hunique (by simp)

theorem All.slots? {names : List String} {slots : List (Option β)} (h : All P fields)
    (hslots : fields.slots? names = some slots) : ∀ x, some x ∈ slots → P x := by
  intro x hx
  cases fields with
  | named entries =>
    have hread : names.mapM (fun name => Fields.unique? name entries) = some slots := hslots
    obtain ⟨name, _, hname⟩ := exists_of_mem_mapM hread hx
    exact All.unique? h hname
  | positional items =>
    simp only [Fields.slots?] at hslots
    split at hslots
    · obtain rfl := Option.some.inj hslots
      rcases List.mem_append.mp hx with hx | hx
      · obtain ⟨y, hy, hxy⟩ := List.mem_map.mp hx
        exact Option.some.inj hxy ▸ h y hy
      · -- a field that is left out holds nothing
        exact absurd (List.eq_of_mem_replicate hx) nofun
    · exact absurd hslots nofun

/-- A reader that begins with the declared fields has values in them that satisfy the
    predicate. -/
theorem All.of_bind_slots {α : Type} {names : List String} {read : List (Option β) → Option α}
    {y : α} (h : All P fields) (hread : (fields.slots? names >>= read) = some y) :
    ∃ slots, (∀ x, some x ∈ slots → P x) ∧ read slots = some y := by
  obtain ⟨slots, hslots, hy⟩ := Option.bind_eq_some_iff.mp hread
  exact ⟨slots, h.slots? hslots, hy⟩

end Slots

/-! Lists of parts. -/

theorem listDistinct_iff {es : List Expression} :
    listDistinct es = true ↔ ∀ e ∈ es, e.distinctKeys = true := by
  induction es with
  | nil => simp [listDistinct]
  | cons e rest ih => simp [listDistinct, ih]

theorem elementsDistinct_iff {elements : List (Option Expression)} :
    elementsDistinct elements = true ↔ ∀ e, some e ∈ elements → e.distinctKeys = true := by
  induction elements with
  | nil => simp [elementsDistinct]
  | cons element rest ih =>
    cases element with
    | none => simp [elementsDistinct, ih]
    | some e => simp [elementsDistinct, ih]

theorem membersDistinct_iff {members : List (Member Expression)} :
    membersDistinct members = true ↔ ∀ m ∈ members, memberDistinct m = true := by
  induction members with
  | nil => simp [membersDistinct]
  | cons m rest ih => simp [membersDistinct, ih]

namespace Reading.Sound

variable {r : Reading}

theorem expressions {es : List Expression} (h : r.Sound) (hes : r.expressions? = some es) :
    listDistinct es = true := by
  obtain ⟨parts, hparts, hread⟩ := Option.bind_eq_some_iff.mp hes
  rw [listDistinct_iff]
  intro e he
  obtain ⟨part, hpart, heq⟩ := exists_of_mem_mapM hread he
  exact (h.items parts hparts part hpart).expression e heq

theorem elements {elements : List (Option Expression)} (h : r.Sound)
    (helements : r.elements? = some elements) : elementsDistinct elements = true := by
  obtain ⟨parts, hparts, hread⟩ := Option.bind_eq_some_iff.mp helements
  rw [elementsDistinct_iff]
  intro e he
  obtain ⟨part, hpart, heq⟩ := exists_of_mem_mapM hread he
  split at heq
  · simp at heq
  · obtain ⟨e', he', hsome⟩ := Option.map_eq_some_iff.mp heq
    obtain rfl := Option.some.inj hsome
    exact (h.items parts hparts part hpart).expression e' he'

theorem members {members : List (Member Expression)} (h : r.Sound)
    (hmembers : r.members? = some members) : membersDistinct members = true := by
  obtain ⟨parts, hparts, hread⟩ := Option.bind_eq_some_iff.mp hmembers
  rw [membersDistinct_iff]
  intro m hm
  obtain ⟨part, hpart, heq⟩ := exists_of_mem_mapM hread hm
  exact (h.items parts hparts part hpart).member m heq

theorem arguments {field : Option Reading} {es : List Expression}
    (h : ∀ r, field = some r → r.Sound)
    (hes : orDefault Reading.expressions? [] field = some es) : listDistinct es = true := by
  cases field with
  | none =>
    obtain rfl : [] = es := Option.some.inj hes
    rfl
  | some r => exact (h r rfl).expressions hes

end Reading.Sound

theorem keyDistinct_of_key? {j : Json} {key : PropertyKey} (h : key? j = some key) :
    keyDistinct key = true := by
  obtain ⟨fields, _, h⟩ := Option.bind_eq_some_iff.mp h
  obtain ⟨tagged, _, h⟩ := Option.bind_eq_some_iff.mp h
  obtain ⟨kind, _, h⟩ := Option.bind_eq_some_iff.mp h
  split at h
  · obtain ⟨slots, _, h⟩ := Option.bind_eq_some_iff.mp h
    split at h
    · obtain rfl := Option.some.inj h
      exact Json.distinctKeys_dedup _
    · exact absurd h nofun
  · obtain ⟨slots, _, h⟩ := Option.bind_eq_some_iff.mp h
    split at h
    · obtain ⟨name, _, rfl⟩ := Option.map_eq_some_iff.mp h
      rfl
    · exact absurd h nofun

theorem distinctKeys_of_ofFields? {fields : Fields Reading} (hfields : All Reading.Sound fields)
    {e : Expression} (h : ofFields? fields = some e) : e.distinctKeys = true := by
  obtain ⟨⟨tag, rest⟩, htag, h⟩ := Option.bind_eq_some_iff.mp h
  obtain ⟨kind, _, h⟩ := Option.bind_eq_some_iff.mp h
  have hrest : All Reading.Sound rest := hfields.tagged? htag
  split at h
  · -- a literal
    obtain ⟨slots, _, h⟩ := Option.bind_eq_some_iff.mp h
    split at h
    · obtain rfl := Option.some.inj h
      exact Json.distinctKeys_dedup _
    · exact absurd h nofun
  · -- a template
    obtain ⟨slots, hslot, h⟩ := hrest.of_bind_slots h
    split at h
    · next quasis holes =>
      obtain ⟨qs, _, h⟩ := Option.bind_eq_some_iff.mp h
      obtain ⟨es, hes, h⟩ := Option.bind_eq_some_iff.mp h
      obtain rfl := Option.some.inj h
      exact Reading.Sound.arguments (fun r hr => hslot r (by simp [hr])) hes
    · exact absurd h nofun
  · -- a conditional
    obtain ⟨slots, hslot, h⟩ := hrest.of_bind_slots h
    split at h
    · next test consequent alternate =>
      obtain ⟨t, ht, h⟩ := Option.bind_eq_some_iff.mp h
      obtain ⟨c, hc, h⟩ := Option.bind_eq_some_iff.mp h
      obtain ⟨a, ha, h⟩ := Option.bind_eq_some_iff.mp h
      obtain rfl := Option.some.inj h
      simp only [distinctKeys, Bool.and_eq_true]
      exact ⟨⟨(hslot test (by simp)).expression t ht, (hslot consequent (by simp)).expression c hc⟩,
        (hslot alternate (by simp)).expression a ha⟩
    · exact absurd h nofun
  · -- a logical expression
    obtain ⟨slots, hslot, h⟩ := hrest.of_bind_slots h
    split at h
    · next op left right =>
      obtain ⟨o, _, h⟩ := Option.bind_eq_some_iff.mp h
      obtain ⟨l, hl, h⟩ := Option.bind_eq_some_iff.mp h
      obtain ⟨r, hr, h⟩ := Option.bind_eq_some_iff.mp h
      obtain rfl := Option.some.inj h
      simp only [distinctKeys, Bool.and_eq_true]
      exact ⟨(hslot left (by simp)).expression l hl, (hslot right (by simp)).expression r hr⟩
    · exact absurd h nofun
  · -- a call
    obtain ⟨slots, hslot, h⟩ := hrest.of_bind_slots h
    split at h
    · next callee arguments =>
      obtain ⟨c, hc, h⟩ := Option.bind_eq_some_iff.mp h
      obtain ⟨es, hes, h⟩ := Option.bind_eq_some_iff.mp h
      obtain rfl := Option.some.inj h
      simp only [distinctKeys, Bool.and_eq_true]
      exact ⟨(hslot callee (by simp)).expression c hc,
        Reading.Sound.arguments (fun r hr => hslot r (by simp [hr])) hes⟩
    · exact absurd h nofun
  · -- an array
    obtain ⟨slots, hslot, h⟩ := hrest.of_bind_slots h
    split at h
    · next elements =>
      obtain ⟨es, hes, rfl⟩ := Option.map_eq_some_iff.mp h
      exact (hslot elements (by simp)).elements hes
    · exact absurd h nofun
  · -- an object
    obtain ⟨slots, hslot, h⟩ := hrest.of_bind_slots h
    split at h
    · next members =>
      obtain ⟨ms, hms, rfl⟩ := Option.map_eq_some_iff.mp h
      exact (hslot members (by simp)).members hms
    · exact absurd h nofun
  · -- an identifier
    obtain ⟨slots, _, h⟩ := Option.bind_eq_some_iff.mp h
    split at h
    · obtain ⟨name, _, rfl⟩ := Option.map_eq_some_iff.mp h
      rfl
    · exact absurd h nofun
  · -- an unknown kind
    split at h
    · exact absurd h nofun
    · obtain rfl := Option.some.inj h
      rfl

theorem memberDistinct_of_memberOfFields? {fields : Fields Reading}
    (hfields : All Reading.Sound fields) {m : Member Expression}
    (h : memberOfFields? fields = some m) : memberDistinct m = true := by
  obtain ⟨⟨tag, rest⟩, htag, h⟩ := Option.bind_eq_some_iff.mp h
  obtain ⟨kind, _, h⟩ := Option.bind_eq_some_iff.mp h
  have hrest : All Reading.Sound rest := hfields.tagged? htag
  split at h
  · obtain ⟨slots, hslot, h⟩ := hrest.of_bind_slots h
    split at h
    · next key value computed shorthand =>
      obtain ⟨k, hk, h⟩ := Option.bind_eq_some_iff.mp h
      obtain ⟨v, hv, h⟩ := Option.bind_eq_some_iff.mp h
      obtain ⟨_, _, h⟩ := Option.bind_eq_some_iff.mp h
      obtain ⟨_, _, h⟩ := Option.bind_eq_some_iff.mp h
      obtain rfl := Option.some.inj h
      simp only [memberDistinct, Bool.and_eq_true]
      exact ⟨keyDistinct_of_key? hk, (hslot value (by simp)).expression v hv⟩
    · exact absurd h nofun
  · obtain ⟨slots, hslot, h⟩ := hrest.of_bind_slots h
    split at h
    · next argument =>
      obtain ⟨a, ha, rfl⟩ := Option.map_eq_some_iff.mp h
      exact (hslot argument (by simp)).expression a ha
    · exact absurd h nofun

/-- The readers of records keep what their fields satisfy. -/
theorem Reading.distinct_ofFields {value : Json} {fields : Fields Reading}
    {items : Option (List Reading)} (h : All Reading.Sound fields) :
    Reading.Distinct ⟨value, ofFields? fields, memberOfFields? fields, items⟩ where
  expression _ he := distinctKeys_of_ofFields? h he
  member _ hm := memberDistinct_of_memberOfFields? h hm

mutual

theorem sound_reading : ∀ j : Json, (reading j).Sound
  | .null | .bool _ | .number _ | .text _ => ⟨⟨nofun, nofun⟩, nofun⟩
  | .array items => by
    have hparts : All Reading.Sound (.positional (readings items)) := sound_readings items
    refine ⟨Reading.distinct_ofFields hparts, ?_⟩
    intro parts heq part hpart
    obtain rfl : readings items = parts := Option.some.inj heq
    exact (hparts part hpart).toDistinct
  | .object entries => by
    have hparts : All Reading.Sound (.named (entryReadings entries)) := sound_entryReadings entries
    exact ⟨Reading.distinct_ofFields hparts, nofun⟩

theorem sound_readings : ∀ items : List Json, ∀ r ∈ readings items, r.Sound
  | [], _, hr => absurd hr List.not_mem_nil
  | item :: rest, r, hr => by
    rcases List.mem_cons.mp hr with rfl | hr
    · exact sound_reading item
    · exact sound_readings rest r hr

theorem sound_entryReadings :
    ∀ entries : List (Text × Json), ∀ e ∈ entryReadings entries, e.2.Sound
  | [], _, he => absurd he List.not_mem_nil
  | (key, value) :: rest, e, he => by
    rcases List.mem_cons.mp he with rfl | he
    · exact sound_reading value
    · exact sound_entryReadings rest e he

end

end ClassLint.Expression
