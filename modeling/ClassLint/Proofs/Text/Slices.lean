/-
  ClassLint.Proofs.Text.Slices

  Parts of a text by byte offsets.  A slice can be taken if its ends are in order,
  lie within the bytes of the text, and fall between characters; otherwise nothing
  can be taken.  A computation on slices keeps a list of those that it takes and
  stops without a result at one that cannot be taken.

  `Gives` says of such a computation that all its slices can be taken and what it
  gives.  It is proved of a computation along its binds: a slice that stands between
  two known parts of its text gives the part between them.
-/

import ClassLint.Text
import Mathlib.Data.List.Basic

namespace ClassLint

namespace Text

/-! ## Bytes -/

theorem length_bytes (t : Text) : (bytes t).length = byteLength t := by
  induction t with
  | nil => rfl
  | cons c rest ih =>
    have hcons : bytes (c :: rest) = String.utf8EncodeChar c ++ bytes rest := List.flatMap_cons
    rw [hcons, List.length_append, String.length_utf8EncodeChar, ih]
    rfl

@[simp]
theorem byteLength_nil : byteLength [] = 0 := rfl

@[simp]
theorem byteLength_cons (c : Char) (t : Text) :
    byteLength (c :: t) = c.utf8Size + byteLength t := rfl

@[simp]
theorem byteLength_append (t u : Text) : byteLength (t ++ u) = byteLength t + byteLength u := by
  induction t with
  | nil => simp
  | cons c rest ih =>
    rw [List.cons_append, byteLength_cons, byteLength_cons, ih]
    omega

/-- Every character has bytes. -/
theorem eq_nil_of_byteLength {t : Text} (h : byteLength t = 0) : t = [] := by
  cases t with
  | nil => rfl
  | cons c rest =>
    have hpos := c.utf8Size_pos
    rw [byteLength_cons] at h
    omega

/-- Of two beginnings of a text the one with fewer bytes is the shorter. -/
theorem prefix_of_byteLength_le {t before upTo : Text} (hbefore : before <+: t) (hupTo : upTo <+: t)
    (h : byteLength before ≤ byteLength upTo) : before <+: upTo := by
  rcases List.prefix_or_prefix_of_prefix hbefore hupTo with hprefix | ⟨rest, rfl⟩
  · exact hprefix
  · rw [byteLength_append] at h
    have hrest : rest = [] := eq_nil_of_byteLength (by omega)
    simp [hrest]

/-- The offset stands in front of a character of the text or at its end. -/
def IsBoundary (t : Text) (offset : Nat) : Prop :=
  ∃ before, before <+: t ∧ (bytes before).length = offset

/-- The text in front of a boundary and the text behind it. -/
def splitAtByte? (offset : Nat) : Text → Option (Text × Text)
  | [] => if offset = 0 then some ([], []) else none
  | c :: rest =>
    if offset = 0 then some ([], c :: rest)
    else if c.utf8Size ≤ offset then
      (splitAtByte? (offset - c.utf8Size) rest).map fun p => (c :: p.1, p.2)
    else none

theorem splitAtByte?_eq_some_iff {offset : Nat} {t before behind : Text} :
    splitAtByte? offset t = some (before, behind) ↔
      t = before ++ behind ∧ byteLength before = offset := by
  induction t generalizing offset before with
  | nil =>
    unfold splitAtByte?
    by_cases hzero : offset = 0
    · rw [if_pos hzero, Option.some.injEq, Prod.mk.injEq]
      constructor
      · rintro ⟨rfl, rfl⟩
        exact ⟨rfl, hzero.symm⟩
      · rintro ⟨htext, -⟩
        exact (List.append_eq_nil_iff.mp htext.symm).imp Eq.symm Eq.symm
    · rw [if_neg hzero]
      refine iff_of_false nofun ?_
      rintro ⟨htext, hlength⟩
      rw [(List.append_eq_nil_iff.mp htext.symm).1, byteLength_nil] at hlength
      exact hzero hlength.symm
  | cons c rest ih =>
    unfold splitAtByte?
    by_cases hzero : offset = 0
    · rw [if_pos hzero, Option.some.injEq, Prod.mk.injEq]
      constructor
      · rintro ⟨rfl, rfl⟩
        exact ⟨rfl, hzero.symm⟩
      · rintro ⟨htext, hlength⟩
        obtain rfl := eq_nil_of_byteLength (hlength.trans hzero)
        exact ⟨rfl, htext⟩
    · rw [if_neg hzero]
      have hpos := c.utf8Size_pos
      cases before with
      | nil =>
        -- in front of the first character only the offset zero
        refine iff_of_false (fun hsplit => ?_) fun h => hzero h.2.symm
        split at hsplit
        · simp at hsplit
        · exact absurd hsplit nofun
      | cons d before =>
        rw [byteLength_cons]
        split
        · next hsize =>
          simp only [Option.map_eq_some_iff, Prod.exists, Prod.mk.injEq, List.cons.injEq,
            List.cons_append]
          constructor
          · rintro ⟨front, back, hsplit, ⟨rfl, rfl⟩, rfl⟩
            obtain ⟨rfl, hlength⟩ := ih.mp hsplit
            exact ⟨⟨rfl, rfl⟩, by omega⟩
          · rintro ⟨⟨rfl, rfl⟩, hlength⟩
            exact ⟨before, behind, ih.mpr ⟨rfl, by omega⟩, ⟨rfl, rfl⟩, rfl⟩
        · next hsize =>
          refine iff_of_false nofun ?_
          rintro ⟨htext, hlength⟩
          obtain ⟨rfl, -⟩ := List.cons.inj htext
          omega

end Text

/-! ## Slices -/

/-- The bytes of a text from one offset to another. -/
structure Slice where
  source : Text
  start : Nat
  stop : Nat

/-- The slice can be taken: its ends are in order, lie within the text, and fall between
    characters. -/
structure Slice.IsWhole (s : Slice) : Prop where
  ordered : s.start ≤ s.stop
  within : s.stop ≤ (Text.bytes s.source).length
  startsCharacter : Text.IsBoundary s.source s.start
  stopsCharacter : Text.IsBoundary s.source s.stop

/-- The text of a slice that can be taken. -/
def Slice.text? (s : Slice) : Option Text :=
  if s.start ≤ s.stop then do
    let (upTo, _) ← Text.splitAtByte? s.stop s.source
    let (_, text) ← Text.splitAtByte? s.start upTo
    some text
  else none

theorem Slice.text?_eq_some {source before part behind : Text} {start stop : Nat}
    (hsource : source = before ++ part ++ behind) (hstart : Text.byteLength before = start)
    (hstop : Text.byteLength before + Text.byteLength part = stop) :
    (Slice.mk source start stop).text? = some part := by
  have hordered : start ≤ stop := by omega
  have hupTo : Text.splitAtByte? stop source = some (before ++ part, behind) :=
    Text.splitAtByte?_eq_some_iff.mpr ⟨hsource, by rw [Text.byteLength_append, hstop]⟩
  have hpart : Text.splitAtByte? start (before ++ part) = some (before, part) :=
    Text.splitAtByte?_eq_some_iff.mpr ⟨rfl, hstart⟩
  simp [text?, hordered, hupTo, hpart]

/-- Exactly the slices that can be taken have a text. -/
theorem Slice.isSome_text?_iff (s : Slice) : s.text?.isSome = true ↔ s.IsWhole := by
  obtain ⟨source, start, stop⟩ := s
  constructor
  · intro h
    by_cases hordered : start ≤ stop
    · simp only [text?, if_pos hordered] at h
      cases hupTo : Text.splitAtByte? stop source with
      | none => simp [hupTo] at h
      | some upTo =>
        obtain ⟨upTo, behind⟩ := upTo
        cases hpart : Text.splitAtByte? start upTo with
        | none => simp [hupTo, hpart] at h
        | some part =>
          obtain ⟨before, part⟩ := part
          obtain ⟨rfl, rfl⟩ := Text.splitAtByte?_eq_some_iff.mp hpart
          obtain ⟨rfl, rfl⟩ := Text.splitAtByte?_eq_some_iff.mp hupTo
          exact {
            ordered := hordered
            within := by simp [Text.length_bytes]
            startsCharacter := ⟨before, by simp, Text.length_bytes before⟩
            stopsCharacter := ⟨before ++ part, List.prefix_append _ _, Text.length_bytes _⟩ }
    · simp [text?, hordered] at h
  · rintro ⟨hordered, -, ⟨before, hbefore, hstart⟩, upTo, hupTo, hstop⟩
    rw [Text.length_bytes] at hstart hstop
    obtain ⟨part, rfl⟩ := Text.prefix_of_byteLength_le hbefore hupTo
      (by rw [hstart, hstop]; exact hordered)
    obtain ⟨behind, hsource⟩ := hupTo
    rw [Text.byteLength_append] at hstop
    rw [text?_eq_some hsource.symm hstart hstop]
    rfl

/-! ## Computations on slices -/

/-- A computation on slices: those that it takes, in order, and its result, which it
    lacks if one of them cannot be taken. -/
structure Slicing (α : Type) where
  taken : List Slice
  result? : Option α

namespace Slicing

variable {α β : Type}

instance : Monad Slicing where
  pure a := ⟨[], some a⟩
  bind x next :=
    match x.result? with
    | some a => ⟨x.taken ++ (next a).taken, (next a).result?⟩
    | none => ⟨x.taken, none⟩

/-- Take a slice. -/
def take (source : Text) (start stop : Nat) : Slicing Text :=
  ⟨[⟨source, start, stop⟩], (Slice.mk source start stop).text?⟩

/-- All slices can be taken, and `a` is the result. -/
structure Gives (x : Slicing α) (a : α) : Prop where
  whole : ∀ s ∈ x.taken, s.IsWhole
  result : x.result? = some a

theorem gives_pure (a : α) : (pure a : Slicing α).Gives a where
  whole _ hs := absurd hs List.not_mem_nil
  result := rfl

theorem Gives.bind {x : Slicing α} {next : α → Slicing β} {a : α} {b : β} (hx : x.Gives a)
    (hnext : (next a).Gives b) : (x >>= next).Gives b := by
  have hbind : x >>= next = ⟨x.taken ++ (next a).taken, (next a).result?⟩ := by
    show (match x.result? with
      | some a => (⟨x.taken ++ (next a).taken, (next a).result?⟩ : Slicing β)
      | none => ⟨x.taken, none⟩) = _
    rw [hx.result]
  rw [hbind]
  refine ⟨fun s hs => ?_, hnext.result⟩
  rcases List.mem_append.mp hs with hs | hs
  · exact hx.whole s hs
  · exact hnext.whole s hs

/-- A slice between two parts of its text gives what stands between them. -/
theorem gives_take {source before part behind : Text} {start stop : Nat}
    (hsource : source = before ++ part ++ behind) (hstart : Text.byteLength before = start)
    (hstop : Text.byteLength before + Text.byteLength part = stop) :
    (take source start stop).Gives part where
  whole s hs := by
    obtain rfl := List.mem_singleton.mp hs
    rw [← Slice.isSome_text?_iff, Slice.text?_eq_some hsource hstart hstop]
    rfl
  result := Slice.text?_eq_some hsource hstart hstop

theorem gives_take_front {source part behind : Text} {stop : Nat} (hsource : source = part ++ behind)
    (hstop : Text.byteLength part = stop) : (take source 0 stop).Gives part :=
  gives_take (hsource.trans (congrArg (· ++ behind) (List.nil_append part).symm))
    Text.byteLength_nil (by rw [Text.byteLength_nil, Nat.zero_add, hstop])

theorem gives_take_end {source before part : Text} {start : Nat} (hsource : source = before ++ part)
    (hstart : Text.byteLength before = start) :
    (take source start (Text.byteLength source)).Gives part :=
  gives_take (hsource.trans (List.append_nil _).symm) hstart
    (by rw [hsource, Text.byteLength_append])

end Slicing

end ClassLint
