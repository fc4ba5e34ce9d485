/-
  ClassLint.Proofs.Expression.Position

  Where in an expression its texts stand.  A position leads from the root to a
  node by the numbers of the parts to enter, counted in the order in which they
  are written, so that an earlier place has the smaller position.

  `Contributes` says which texts stand at which positions, one rule for each way
  to contribute.  The reading lists exactly these, by ascending position: all of
  them, each once, in the order of the source.
-/

import ClassLint.Proofs.Expression.Pending

namespace ClassLint.Expression

/-- The numbers of the parts to enter, from the root down. -/
abbrev Position := List Nat

/-! ## Contributions -/

/-- The expression contributes the text at the position.  A conditional has its
    condition as part 0, a call its callee; no rule enters these, nor a spread. -/
inductive Contributes (mode : ExtractMode) : Expression → Position → Text → Prop where
  | literal (value : Text) : Contributes mode (literal (.text value)) [] value
  | template (value raw : Text) : Contributes mode (template [⟨some value, raw⟩] []) [] value
  | consequent {test consequent alternate : Expression} {p : Position} {s : Text} :
    Contributes mode consequent p s →
      Contributes mode (conditional test consequent alternate) (1 :: p) s
  | alternate {test consequent alternate : Expression} {p : Position} {s : Text} :
    Contributes mode alternate p s →
      Contributes mode (conditional test consequent alternate) (2 :: p) s
  | left {operator : LogicalOperator} {left right : Expression} {p : Position} {s : Text} :
    Contributes mode left p s → Contributes mode (logical operator left right) (0 :: p) s
  | right {operator : LogicalOperator} {left right : Expression} {p : Position} {s : Text} :
    Contributes mode right p s → Contributes mode (logical operator left right) (1 :: p) s
  | argument {callee e : Expression} {arguments : List Expression} {i : Nat} {p : Position}
      {s : Text} : arguments[i]? = some e → Contributes mode e p s →
      Contributes mode (call callee arguments) ((i + 1) :: p) s
  | element {elements : List (Option Expression)} {e : Expression} {i : Nat} {p : Position}
      {s : Text} : elements[i]? = some (some e) → Contributes mode e p s →
      Contributes mode (array elements) (i :: p) s
  | literalKey {members : List (Member Expression)} {value : Expression} {shorthand : Bool}
      {i : Nat} {s : Text} : mode = .keys →
      members[i]? = some (.property (.literal (.text s)) value false shorthand) →
      Contributes mode (object members) [i] s
  | identifierKey {members : List (Member Expression)} {value : Expression} {shorthand : Bool}
      {i : Nat} {s : Text} : mode = .keys →
      members[i]? = some (.property (.identifier s) value false shorthand) →
      Contributes mode (object members) [i] s
  | value {members : List (Member Expression)} {key : PropertyKey} {value : Expression}
      {computed shorthand : Bool} {i : Nat} {p : Position} {s : Text} : mode = .values →
      members[i]? = some (.property key value computed shorthand) →
      Contributes mode value p s → Contributes mode (object members) (i :: p) s

/-! ## Numbered parts -/

section Numbered

variable {α β : Type}

/-- What is picked from the items of a list, each with the number of its item. -/
def numbered (start : Nat) (pick : α → Option β) (items : List α) : List (Nat × β) :=
  (items.zipIdx start).filterMap fun item => (pick item.1).map (item.2, ·)

theorem map_snd_numbered (start : Nat) (pick : α → Option β) (items : List α) :
    (numbered start pick items).map Prod.snd = items.filterMap pick := by
  have hpick : (fun item : α × Nat => ((pick item.1).map (item.2, ·)).map Prod.snd)
      = pick ∘ Prod.fst := by
    funext item
    cases hitem : pick item.1 <;> simp [hitem]
  rw [numbered, List.map_filterMap, hpick, ← List.filterMap_map, List.zipIdx_map_fst]

theorem mem_numbered {start i : Nat} {pick : α → Option β} {items : List α} {part : β} :
    (i, part) ∈ numbered start pick items ↔
      start ≤ i ∧ ∃ item, items[i - start]? = some item ∧ pick item = some part := by
  unfold numbered
  constructor
  · intro h
    obtain ⟨⟨item, j⟩, hitem, hpicked⟩ := List.mem_filterMap.mp h
    obtain ⟨picked, hpick, hpair⟩ := Option.map_eq_some_iff.mp hpicked
    obtain ⟨rfl, rfl⟩ := Prod.mk.inj hpair
    obtain ⟨hstart, hget⟩ := List.mk_mem_zipIdx_iff_le_and_getElem?_sub.mp hitem
    exact ⟨hstart, item, hget, hpick⟩
  · rintro ⟨hstart, item, hget, hpick⟩
    have hitem := List.mk_mem_zipIdx_iff_le_and_getElem?_sub.mpr ⟨hstart, hget⟩
    exact List.mem_filterMap.mpr ⟨(item, i), hitem, by simp [hpick]⟩

theorem mem_numbered_zero {i : Nat} {pick : α → Option β} {items : List α} {part : β} :
    (i, part) ∈ numbered 0 pick items ↔ ∃ item, items[i]? = some item ∧ pick item = some part := by
  simp [mem_numbered]

theorem pairwise_numbered (start : Nat) (pick : α → Option β) (items : List α) :
    (numbered start pick items).Pairwise fun a b => a.1 < b.1 := by
  have hnumbers : (items.zipIdx start).Pairwise fun a b => a.2 < b.2 := by
    rw [← List.pairwise_map, List.zipIdx_map_snd]
    exact List.pairwise_lt_range'
  unfold numbered
  rw [List.pairwise_filterMap]
  refine hnumbers.imp ?_
  rintro ⟨item, i⟩ ⟨item', j⟩ hlt a ha b hb
  obtain ⟨picked, -, rfl⟩ := Option.map_eq_some_iff.mp ha
  obtain ⟨picked', -, rfl⟩ := Option.map_eq_some_iff.mp hb
  exact hlt

end Numbered

variable {mode : ExtractMode}

/-- The parts of an expression that are read, with their numbers. -/
def parts (mode : ExtractMode) : Expression → List (Nat × Expression)
  | conditional _ consequent alternate => [(1, consequent), (2, alternate)]
  | logical _ left right => [(0, left), (1, right)]
  | call _ arguments => numbered 1 some arguments
  | array elements => numbered 0 id elements
  | object members =>
    match mode with
    | .keys => []
    | .values => numbered 0 memberValue? members
  | _ => []

/-- The texts that an expression contributes itself, with their positions. -/
def ownSites (mode : ExtractMode) : Expression → List (Position × Text)
  | literal value => (literalText? value).toList.map ([], ·)
  | template quasis holes => (templateText? quasis holes).toList.map ([], ·)
  | object members =>
    match mode with
    | .keys => (numbered 0 keyText? members).map fun key => ([key.1], key.2)
    | .values => []
  | _ => []

theorem map_snd_parts (e : Expression) : (parts mode e).map Prod.snd = children mode e := by
  cases e with
  | call callee arguments => simp [parts, children, map_snd_numbered]
  | array elements => simp [parts, children, map_snd_numbered]
  | object members => cases mode <;> simp [parts, children, map_snd_numbered]
  | literal | template | conditional | logical | identifier | unknown => rfl

theorem pairwise_parts (e : Expression) : (parts mode e).Pairwise fun a b => a.1 < b.1 := by
  cases e with
  | call callee arguments => exact pairwise_numbered 1 some arguments
  | array elements => exact pairwise_numbered 0 id elements
  | object members =>
    cases mode with
    | keys => exact List.Pairwise.nil
    | values => exact pairwise_numbered 0 memberValue? members
  | literal | template | conditional | logical | identifier | unknown => simp [parts]

theorem map_snd_ownSites (e : Expression) :
    (ownSites mode e).map Prod.snd = ownFragments mode e := by
  cases e with
  | object members =>
    cases mode with
    | keys =>
      rw [ownFragments, ← map_snd_numbered 0 keyText? members]
      simp [ownSites]
    | values => rfl
  | literal value => cases h : literalText? value <;> simp [ownSites, ownFragments, h]
  | template quasis holes => cases h : templateText? quasis holes <;> simp [ownSites, ownFragments, h]
  | call | array | conditional | logical | identifier | unknown => rfl

theorem pairwise_ownSites (e : Expression) : (ownSites mode e).Pairwise fun a b => a.1 < b.1 := by
  cases e with
  | object members =>
    cases mode with
    | keys =>
      unfold ownSites
      rw [List.pairwise_map]
      refine (pairwise_numbered 0 keyText? members).imp ?_
      intro a b hlt
      exact List.cons_lt_cons_iff.mpr (Or.inl hlt)
    | values => exact List.Pairwise.nil
  | literal value => cases h : literalText? value <;> simp [ownSites, h]
  | template quasis holes => cases h : templateText? quasis holes <;> simp [ownSites, h]
  | call | array | conditional | logical | identifier | unknown => exact List.Pairwise.nil

theorem ownSites_eq_nil_or_parts_eq_nil (e : Expression) :
    ownSites mode e = [] ∨ parts mode e = [] := by
  cases e with
  | object members => cases mode <;> simp [ownSites, parts]
  | literal | template | call | array | conditional | logical | identifier | unknown =>
    simp [ownSites, parts]

theorem weight_lt_of_mem_parts {e part : Expression} {i : Nat} (h : (i, part) ∈ parts mode e) :
    weight part < weight e := by
  have hchild : part ∈ children mode e := by
    rw [← map_snd_parts]
    exact List.mem_map_of_mem h
  obtain ⟨before, behind, hsplit⟩ := List.append_of_mem hchild
  have hweight := listWeight_children mode e
  rw [hsplit, listWeight_append, listWeight] at hweight
  omega

/-! ## Sites -/

/-- The texts of an expression in the order of reading, with their positions. -/
def sites (mode : ExtractMode) (e : Expression) : List (Position × Text) :=
  ownSites mode e
    ++ (parts mode e).attach.flatMap fun part =>
      (sites mode part.1.2).map fun site => (part.1.1 :: site.1, site.2)
termination_by weight e
decreasing_by exact weight_lt_of_mem_parts part.2

theorem sites_eq (e : Expression) :
    sites mode e = ownSites mode e ++ (parts mode e).flatMap fun part =>
      (sites mode part.2).map fun site => (part.1 :: site.1, site.2) := by
  rw [sites, ← List.flatMap_map Subtype.val fun part : Nat × Expression =>
    (sites mode part.2).map fun site => (part.1 :: site.1, site.2), List.attach_map_subtype_val]

theorem sites_induction (mode : ExtractMode) {motive : Expression → Prop}
    (step : ∀ e, (∀ i part, (i, part) ∈ parts mode e → motive part) → motive e)
    (e : Expression) : motive e :=
  step e fun _ part _ => sites_induction mode step part
termination_by weight e
decreasing_by exact weight_lt_of_mem_parts ‹_›

theorem mem_sites {e : Expression} {p : Position} {s : Text} :
    (p, s) ∈ sites mode e ↔
      (p, s) ∈ ownSites mode e
        ∨ ∃ i part q, (i, part) ∈ parts mode e ∧ p = i :: q ∧ (q, s) ∈ sites mode part := by
  rw [sites_eq, List.mem_append, List.mem_flatMap]
  refine or_congr_right ?_
  constructor
  · rintro ⟨⟨i, part⟩, hpart, hsite⟩
    obtain ⟨⟨q, s'⟩, hq, hpair⟩ := List.mem_map.mp hsite
    obtain ⟨rfl, rfl⟩ := Prod.mk.inj hpair
    exact ⟨i, part, q, hpart, rfl, hq⟩
  · rintro ⟨i, part, q, hpart, rfl, hq⟩
    exact ⟨(i, part), hpart, List.mem_map.mpr ⟨(q, s), hq, rfl⟩⟩

/-- The texts at the sites are what the reading gives. -/
theorem map_snd_sites (e : Expression) : (sites mode e).map Prod.snd = fragments mode e := by
  induction e using sites_induction mode with
  | step e ih =>
    have hparts : ∀ ps : List (Nat × Expression), (∀ part ∈ ps, part ∈ parts mode e) →
        (ps.flatMap fun part => (sites mode part.2).map fun site => (part.1 :: site.1, site.2)).map
          Prod.snd = listFragments mode (ps.map Prod.snd) := by
      intro ps hps
      induction ps with
      | nil => rfl
      | cons part rest ihrest =>
        have hpart : (sites mode part.2).map Prod.snd = fragments mode part.2 :=
          ih part.1 part.2 (hps part (List.mem_cons_self ..))
        have hrest := ihrest fun other hother => hps other (List.mem_cons_of_mem _ hother)
        rw [List.flatMap_cons, List.map_append, hrest, List.map_map, List.map_cons, listFragments,
          ← hpart]
        rfl
    rw [sites_eq, List.map_append, map_snd_ownSites, hparts _ fun _ h => h, map_snd_parts,
      fragments_eq]

/-- Sites come by ascending position. -/
theorem pairwise_sites (e : Expression) : (sites mode e).Pairwise fun a b => a.1 < b.1 := by
  induction e using sites_induction mode with
  | step e ih =>
    have hwithin : ∀ part ∈ parts mode e,
        ((sites mode part.2).map fun site => (part.1 :: site.1, site.2)).Pairwise
          fun a b => a.1 < b.1 := by
      intro part hpart
      rw [List.pairwise_map]
      refine (ih part.1 part.2 hpart).imp ?_
      intro a b hlt
      exact List.cons_lt_cons_iff.mpr (Or.inr ⟨rfl, hlt⟩)
    have hbetween : (parts mode e).Pairwise fun part part' =>
        ∀ x ∈ (sites mode part.2).map (fun site => (part.1 :: site.1, site.2)),
        ∀ y ∈ (sites mode part'.2).map (fun site => (part'.1 :: site.1, site.2)), x.1 < y.1 := by
      refine (pairwise_parts e).imp ?_
      intro part part' hlt x hx y hy
      obtain ⟨site, -, rfl⟩ := List.mem_map.mp hx
      obtain ⟨site', -, rfl⟩ := List.mem_map.mp hy
      exact List.cons_lt_cons_iff.mpr (Or.inl hlt)
    rw [sites_eq]
    -- an expression has texts of its own or parts to enter, never both
    rcases ownSites_eq_nil_or_parts_eq_nil e with hnone | hnone
    · rw [hnone, List.nil_append, List.pairwise_flatMap]
      exact ⟨hwithin, hbetween⟩
    · rw [hnone, List.flatMap_nil, List.append_nil]
      exact pairwise_ownSites e

/-! ## Rules and sites -/

theorem literalText?_eq_some_iff {value : Json} {s : Text} :
    literalText? value = some s ↔ value = .text s := by
  cases value <;> simp [literalText?]

theorem templateText?_eq_some_iff {quasis : List Quasi} {holes : List Expression} {s : Text} :
    templateText? quasis holes = some s ↔ (∃ raw, quasis = [⟨some s, raw⟩]) ∧ holes = [] := by
  unfold templateText?
  split
  · next quasi =>
    obtain ⟨cooked, raw⟩ := quasi
    simp
  · next hshape =>
    constructor
    · intro h
      exact absurd h (by simp)
    · rintro ⟨⟨raw, rfl⟩, rfl⟩
      exact absurd rfl (hshape _ rfl)

theorem keyText?_eq_some_iff {member : Member Expression} {s : Text} :
    keyText? member = some s ↔
      ∃ value shorthand, member = .property (.literal (.text s)) value false shorthand
        ∨ member = .property (.identifier s) value false shorthand := by
  cases member with
  | spread argument => simp [keyText?]
  | property key value computed shorthand =>
    cases computed with
    | true => simp [keyText?]
    | false => cases key <;> simp [keyText?, literalText?_eq_some_iff]

theorem memberValue?_eq_some_iff {member : Member Expression} {e : Expression} :
    memberValue? member = some e ↔
      ∃ key computed shorthand, member = .property key e computed shorthand := by
  cases member <;> simp [memberValue?]

theorem Contributes.own_or_part {e : Expression} {p : Position} {s : Text}
    (h : Contributes mode e p s) :
    (p, s) ∈ ownSites mode e
      ∨ ∃ i part q, (i, part) ∈ parts mode e ∧ p = i :: q ∧ Contributes mode part q s := by
  cases h with
  | literal => exact Or.inl (by simp [ownSites, literalText?])
  | template => exact Or.inl (by simp [ownSites, templateText?])
  | consequent h => exact Or.inr ⟨1, _, _, by simp [parts], rfl, h⟩
  | alternate h => exact Or.inr ⟨2, _, _, by simp [parts], rfl, h⟩
  | left h => exact Or.inr ⟨0, _, _, by simp [parts], rfl, h⟩
  | right h => exact Or.inr ⟨1, _, _, by simp [parts], rfl, h⟩
  | @argument callee e arguments i p s hget h =>
    exact Or.inr ⟨i + 1, e, p, mem_numbered.mpr ⟨by omega, e, hget, rfl⟩, rfl, h⟩
  | @element elements e i p s hget h =>
    exact Or.inr ⟨i, e, p, mem_numbered_zero.mpr ⟨some e, hget, rfl⟩, rfl, h⟩
  | @literalKey members value shorthand i s hmode hget =>
    subst hmode
    have hkey := mem_numbered_zero.mpr ⟨_, hget, keyText?_eq_some_iff.mpr ⟨_, _, Or.inl rfl⟩⟩
    exact Or.inl (List.mem_map.mpr ⟨(i, s), hkey, rfl⟩)
  | @identifierKey members value shorthand i s hmode hget =>
    subst hmode
    have hkey := mem_numbered_zero.mpr ⟨_, hget, keyText?_eq_some_iff.mpr ⟨_, _, Or.inr rfl⟩⟩
    exact Or.inl (List.mem_map.mpr ⟨(i, s), hkey, rfl⟩)
  | @value members key value computed shorthand i p s hmode hget h =>
    subst hmode
    exact Or.inr ⟨i, value, p, mem_numbered_zero.mpr ⟨_, hget, rfl⟩, rfl, h⟩

theorem contributes_of_mem_ownSites {e : Expression} {p : Position} {s : Text}
    (hown : (p, s) ∈ ownSites mode e) : Contributes mode e p s := by
  cases e with
  | literal value =>
    simp only [ownSites, List.mem_map, Option.mem_toList, literalText?_eq_some_iff,
      Prod.mk.injEq] at hown
    obtain ⟨text, rfl, rfl, rfl⟩ := hown
    exact .literal _
  | template quasis holes =>
    simp only [ownSites, List.mem_map, Option.mem_toList, templateText?_eq_some_iff,
      Prod.mk.injEq] at hown
    obtain ⟨text, ⟨⟨raw, rfl⟩, rfl⟩, rfl, rfl⟩ := hown
    exact .template _ _
  | object members =>
    cases mode with
    | values => exact absurd hown (by simp [ownSites])
    | keys =>
      obtain ⟨⟨i, text⟩, hkey, hpair⟩ := List.mem_map.mp hown
      obtain ⟨rfl, rfl⟩ := Prod.mk.inj hpair
      obtain ⟨member, hget, htext⟩ := mem_numbered_zero.mp hkey
      obtain ⟨value, shorthand, rfl | rfl⟩ := keyText?_eq_some_iff.mp htext
      · exact .literalKey rfl hget
      · exact .identifierKey rfl hget
  | conditional | logical | call | array | identifier | unknown =>
    exact absurd hown (by simp [ownSites])

theorem Contributes.of_mem_parts {e part : Expression} {i : Nat} {q : Position} {s : Text}
    (hpart : (i, part) ∈ parts mode e) (h : Contributes mode part q s) :
    Contributes mode e (i :: q) s := by
  cases e with
  | conditional test consequent alternate =>
    simp only [parts, List.mem_cons, Prod.mk.injEq, List.not_mem_nil, or_false] at hpart
    obtain ⟨rfl, rfl⟩ | ⟨rfl, rfl⟩ := hpart
    · exact .consequent h
    · exact .alternate h
  | logical operator left right =>
    simp only [parts, List.mem_cons, Prod.mk.injEq, List.not_mem_nil, or_false] at hpart
    obtain ⟨rfl, rfl⟩ | ⟨rfl, rfl⟩ := hpart
    · exact .left h
    · exact .right h
  | call callee arguments =>
    obtain ⟨hstart, argument, hget, hpick⟩ := mem_numbered.mp hpart
    obtain rfl : argument = part := Option.some.inj hpick
    obtain ⟨j, rfl⟩ : ∃ j, i = j + 1 := ⟨i - 1, by omega⟩
    exact .argument (by simpa using hget) h
  | array elements =>
    obtain ⟨element, hget, hpick⟩ := mem_numbered_zero.mp hpart
    obtain rfl : element = some part := hpick
    exact .element hget h
  | object members =>
    cases mode with
    | keys => exact absurd hpart (by simp [parts])
    | values =>
      obtain ⟨member, hget, hpick⟩ := mem_numbered_zero.mp hpart
      obtain ⟨key, computed, shorthand, rfl⟩ := memberValue?_eq_some_iff.mp hpick
      exact .value rfl hget h
  | literal | template | identifier | unknown => exact absurd hpart (by simp [parts])

/-- The sites are the places that the rules allow. -/
theorem mem_sites_iff_contributes (e : Expression) (p : Position) (s : Text) :
    (p, s) ∈ sites mode e ↔ Contributes mode e p s := by
  induction e using sites_induction mode generalizing p with
  | step e ih =>
    rw [mem_sites]
    constructor
    · rintro (hown | ⟨i, part, q, hpart, rfl, hsite⟩)
      · exact contributes_of_mem_ownSites hown
      · exact .of_mem_parts hpart ((ih i part hpart q).mp hsite)
    · intro h
      refine h.own_or_part.imp_right ?_
      rintro ⟨i, part, q, hpart, hp, hcontributes⟩
      exact ⟨i, part, q, hpart, hp, (ih i part hpart q).mpr hcontributes⟩

/-- **Reading with pending nodes is the recursive reading.**  It gives the texts
    of the recursive reading, and taking out conditions, callees and spread
    arguments makes no difference to it.  What it gives are the texts at the
    places that the rules of `Contributes` allow, by ascending position: in the
    order of the source, none missing and none repeated. -/
theorem pendingFragments_reads (mode : ExtractMode) (e : Expression) :
    pendingFragments mode e = fragments mode e
    ∧ pendingFragments mode (bare e) = pendingFragments mode e
    ∧ ∃ places : List (Position × Text),
        pendingFragments mode e = places.map Prod.snd
        ∧ places.Pairwise (fun a b => a.1 < b.1)
        ∧ ∀ p s, (p, s) ∈ places ↔ Contributes mode e p s := by
  refine ⟨pendingFragments_eq e, ?_, sites mode e, ?_, pairwise_sites e, mem_sites_iff_contributes e⟩
  · rw [pendingFragments_eq, pendingFragments_eq, fragments_bare]
  · rw [pendingFragments_eq, map_snd_sites]

end ClassLint.Expression
