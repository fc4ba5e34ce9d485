/-
  ClassLint.Proofs.Token.Slices

  Tokens and arbitrary values read by byte offsets.  A scan finds the offset of a
  delimiter, and the parts are the slices around it: from behind the delimiter, one
  or two bytes further, up to the end or to one byte in front of it.  Every such
  slice can be taken, because the delimiters are characters of one byte, and the
  parts are those that the readers give.
-/

import ClassLint.Proofs.Text.Slices
import ClassLint.Proofs.Token.Arbitrary
import ClassLint.Proofs.Token.Grammar

namespace ClassLint

namespace Token

/-! ## Brackets -/

/-- The offset of the bracket that closes the first one, in a text that stands at an
    offset behind `depth` open brackets. -/
def closingOffset? (offset depth : Nat) : Text → Option Nat
  | [] => none
  | c :: rest =>
    if c = '[' then closingOffset? (offset + c.utf8Size) (depth + 1) rest
    else if c = ']' then
      match depth with
      | 0 => none
      | 1 => some offset
      | d + 1 => closingOffset? (offset + c.utf8Size) d rest
    else closingOffset? (offset + c.utf8Size) depth rest

/-- The offset is that of the last byte of the bracketed part. -/
theorem closingOffset?_eq (offset depth : Nat) (t : Text) :
    (closingOffset? offset depth t).map (· + 1)
      = (closeBracket depth t).map fun p => offset + Text.byteLength p.1 := by
  induction t generalizing offset depth with
  | nil => rfl
  | cons c rest ih =>
    -- a character that closes nothing is read, and the scan goes on behind it
    have hread : ∀ d, (closingOffset? (offset + c.utf8Size) d rest).map (· + 1)
        = ((closeBracket d rest).map fun p => (c :: p.1, p.2)).map
            fun p => offset + Text.byteLength p.1 := by
      intro d
      rw [ih, Option.map_map]
      congr 1
      funext p
      show offset + c.utf8Size + Text.byteLength p.1 = offset + Text.byteLength (c :: p.1)
      rw [Text.byteLength_cons, Nat.add_assoc]
    unfold closingOffset? closeBracket
    by_cases hopen : c = '['
    · rw [if_pos hopen, if_pos hopen]
      exact hread (depth + 1)
    · rw [if_neg hopen, if_neg hopen]
      by_cases hclose : c = ']'
      · rw [if_pos hclose, if_pos hclose]
        cases depth with
        | zero => rfl
        | succ d =>
          cases d with
          | zero =>
            rw [hclose]
            rfl
          | succ d => exact hread (d + 1)
      · rw [if_neg hclose, if_neg hclose]
        exact hread depth

theorem closingOffset?_eq_none {t : Text} (h : closingOffset? 0 0 t = none) :
    closeBracket 0 t = none := by
  have heq := closingOffset?_eq 0 0 t
  rw [h, Option.map_none] at heq
  exact Option.map_eq_none_iff.mp heq.symm

/-- Behind the closing bracket one byte further stands what is behind the bracketed part. -/
theorem closingOffset?_eq_some {t : Text} {close : Nat} (h : closingOffset? 0 0 t = some close) :
    ∃ closed rest, closeBracket 0 t = some (closed, rest) ∧ closed ++ rest = t
      ∧ Text.byteLength closed = close + 1 := by
  have heq := closingOffset?_eq 0 0 t
  rw [h, Option.map_some] at heq
  obtain ⟨⟨closed, rest⟩, hclosed, hlength⟩ := Option.map_eq_some_iff.mp heq.symm
  exact ⟨closed, rest, hclosed, closeBracket_append hclosed, by simpa using hlength⟩

/-! ## Variants -/

/-- Split off the first variant by byte offsets. -/
def splitVariantBySlices (t : Text) : Slicing (Option (Text × Text)) :=
  if t.contains ':' then
    if t.head? = some '[' then
      match closingOffset? 0 0 t with
      | none => pure none
      | some close => do
        let behind ← Slicing.take t (close + 1) (Text.byteLength t)
        if behind.head? = some ':' then
          let variant ← Slicing.take t 0 (close + 1)
          let rest ← Slicing.take t (close + 2) (Text.byteLength t)
          pure (some (variant, rest))
        else pure none
    else pure (some (t.takeWhile (· != ':'), (t.dropWhile (· != ':')).tail))
  else pure none

/-- Behind a bracket that closes, the text splits if a colon follows. -/
theorem splitVariant_of_closeBracket {t closed rest : Text} (hopen : t.head? = some '[')
    (hclosed : closeBracket 0 t = some (closed, rest)) :
    splitVariant t = if rest.head? = some ':' then some (closed, rest.tail) else none := by
  unfold splitVariant
  rw [if_pos hopen, hclosed]
  cases rest with
  | nil => rfl
  | cons c rest =>
    by_cases hc : c = ':'
    · subst hc
      rfl
    · have hhead : ¬ (c :: rest).head? = some ':' := by simpa using hc
      rw [if_neg hhead]
      split
      · next heq =>
        obtain ⟨-, hrest⟩ := Prod.mk.inj (Option.some.inj heq)
        exact absurd (List.cons.inj hrest).1 hc
      · rfl

/-- Without a bracket in front, a text splits at its first colon. -/
theorem splitVariant_of_mem {t : Text} (hplain : ¬ t.head? = some '[') (hcolon : ':' ∈ t) :
    splitVariant t = some (t.takeWhile (· != ':'), (t.dropWhile (· != ':')).tail) := by
  unfold splitVariant
  rw [if_neg hplain]
  cases hdropped : t.dropWhile (· != ':') with
  | nil =>
    have hall := List.dropWhile_eq_nil_iff.mp hdropped ':' hcolon
    exact absurd hall (by decide)
  | cons c rest => rfl

theorem splitVariantBySlices_gives (t : Text) :
    (splitVariantBySlices t).Gives (splitVariant t) := by
  unfold splitVariantBySlices
  by_cases hcolon : t.contains ':' = true
  · rw [if_pos hcolon]
    by_cases hopen : t.head? = some '['
    · rw [if_pos hopen]
      cases hclose : closingOffset? 0 0 t with
      | none =>
        have hnone : splitVariant t = none := by
          unfold splitVariant
          rw [if_pos hopen, closingOffset?_eq_none hclose]
        rw [hnone]
        exact Slicing.gives_pure none
      | some close =>
        obtain ⟨closed, rest, hclosed, happend, hlength⟩ := closingOffset?_eq_some hclose
        rw [splitVariant_of_closeBracket hopen hclosed]
        have hbehind : (Slicing.take t (close + 1) (Text.byteLength t)).Gives rest :=
          Slicing.gives_take_end happend.symm hlength
        refine hbehind.bind ?_
        by_cases hnext : rest.head? = some ':'
        · rw [if_pos hnext, if_pos hnext]
          obtain ⟨tail, rfl⟩ := List.head?_eq_some_iff.mp hnext
          have hvariant : (Slicing.take t 0 (close + 1)).Gives closed :=
            Slicing.gives_take_front happend.symm hlength
          have hcolonLength : Text.byteLength (closed ++ [':']) = close + 2 := by
            rw [Text.byteLength_append, hlength]
            rfl
          have hrest : (Slicing.take t (close + 2) (Text.byteLength t)).Gives tail :=
            Slicing.gives_take_end (by rw [← happend, List.append_assoc]; rfl) hcolonLength
          exact hvariant.bind (hrest.bind (Slicing.gives_pure _))
        · rw [if_neg hnext, if_neg hnext]
          exact Slicing.gives_pure none
    · rw [if_neg hopen, splitVariant_of_mem hopen (List.contains_iff_mem.mp hcolon)]
      exact Slicing.gives_pure _
  · have hbase : IsBase t := Or.inl fun hmem => hcolon (List.contains_iff_mem.mpr hmem)
    rw [if_neg hcolon, splitVariant_eq_none_iff.mpr hbase]
    exact Slicing.gives_pure none

theorem length_of_splitVariantBySlices {t variant rest : Text}
    (h : (splitVariantBySlices t).result? = some (some (variant, rest))) :
    rest.length < t.length := by
  rw [(splitVariantBySlices_gives t).result] at h
  exact length_of_splitVariant (Option.some.inj h)

/-- Read a token by byte offsets: take variants off the front until none is left. -/
def parseBySlices (t : Text) : Slicing Token :=
  -- the result is looked at ahead of the bind, which would not show that the rest is shorter
  match _h : (splitVariantBySlices t).result? with
  | some (some (variant, rest)) => do
    let _ ← splitVariantBySlices t
    let token ← parseBySlices rest
    pure (under variant token)
  | _ => do
    let _ ← splitVariantBySlices t
    pure ⟨[], t⟩
termination_by t.length
decreasing_by exact length_of_splitVariantBySlices _h

theorem parseBySlices_gives (t : Text) : (parseBySlices t).Gives (parse t) := by
  induction t using parse.induct with
  | case1 t variant rest hsplit ih =>
    have hresult : (splitVariantBySlices t).result? = some (some (variant, rest)) := by
      rw [(splitVariantBySlices_gives t).result, hsplit]
    rw [parse_of_splitVariant hsplit]
    unfold parseBySlices
    split
    · next variant' rest' hresult' =>
      rw [hresult] at hresult'
      obtain ⟨rfl, rfl⟩ := Prod.mk.inj (Option.some.inj (Option.some.inj hresult'))
      exact (splitVariantBySlices_gives t).bind (ih.bind (Slicing.gives_pure _))
    · next hno => exact absurd hresult (hno variant rest)
  | case2 t hsplit =>
    have hresult : (splitVariantBySlices t).result? = some none := by
      rw [(splitVariantBySlices_gives t).result, hsplit]
    rw [parse_of_splitVariant_none hsplit]
    unfold parseBySlices
    split
    · next hresult' =>
      rw [hresult] at hresult'
      exact absurd hresult' nofun
    · exact (splitVariantBySlices_gives t).bind (Slicing.gives_pure _)

end Token

namespace Arbitrary

/-! ## Arbitrary values -/

/-- The offset of the last `-[` of a text that stands at an offset. -/
def lastOpeningOffset? (offset : Nat) : Text → Option Nat
  | [] => none
  | c :: rest =>
    (lastOpeningOffset? (offset + c.utf8Size) rest).or
      (if ['-', '['].isPrefixOf (c :: rest) then some offset else none)

theorem lastOpeningOffset?_eq (offset : Nat) (t : Text) :
    lastOpeningOffset? offset t
      = (lastOpening? t).map fun p => offset + Text.byteLength p.1 := by
  induction t generalizing offset with
  | nil => rfl
  | cons c rest ih =>
    rw [lastOpeningOffset?, ih, lastOpening?]
    cases hrest : lastOpening? rest with
    | some p =>
      obtain ⟨before, behind⟩ := p
      simp only [Option.map_some, Option.some_or, Text.byteLength_cons, Nat.add_assoc]
    | none =>
      simp only [Option.map_none, Option.none_or]
      by_cases hc : c = '-'
      · rw [if_pos hc]
        cases hbracket : ['['].isPrefixOf? rest with
        | none =>
          have hnot : ¬ ['-', '['].isPrefixOf (c :: rest) = true := by
            intro hprefix
            obtain ⟨-, behind, rfl⟩ := opens_iff.mp (List.isPrefixOf_iff_prefix.mp hprefix)
            rw [isPrefixOf?_bracket.mpr rfl] at hbracket
            exact absurd hbracket (Option.some_ne_none behind)
          rw [if_neg hnot]
          rfl
        | some behind =>
          have hprefix : ['-', '['].isPrefixOf (c :: rest) = true :=
            List.isPrefixOf_iff_prefix.mpr
              (opens_iff.mpr ⟨hc, behind, isPrefixOf?_bracket.mp hbracket⟩)
          rw [if_pos hprefix]
          rfl
      · have hnot : ¬ ['-', '['].isPrefixOf (c :: rest) = true := fun hprefix =>
          hc (opens_iff.mp (List.isPrefixOf_iff_prefix.mp hprefix)).1
        rw [if_neg hc, if_neg hnot]
        rfl

/-- Read `utility-[value]` by byte offsets. -/
def parseBySlices (base : Text) : Slicing (Option Arbitrary) :=
  match lastOpeningOffset? 0 base with
  | none => pure none
  | some opening =>
    if base.getLast? = some ']' then do
      let utility ← Slicing.take base 0 opening
      let value ← Slicing.take base (opening + 2) (Text.byteLength base - 1)
      if utility.isEmpty || value.isEmpty || !isBalanced 0 value then pure none
      else pure (some ⟨utility, value⟩)
    else pure none

/-- The value stands between the two bytes of the opening and the one byte of the bracket at
    the end. -/
theorem gives_take_value {base utility value : Text}
    (hbase : base = utility ++ '-' :: '[' :: (value ++ [']'])) :
    (Slicing.take base (Text.byteLength utility + 2) (Text.byteLength base - 1)).Gives value := by
  have hopened : Text.byteLength (utility ++ ['-', '[']) = Text.byteLength utility + 2 := by
    rw [Text.byteLength_append]
    rfl
  have hparts : base = (utility ++ ['-', '[']) ++ value ++ [']'] := by
    rw [hbase, List.append_assoc, List.append_assoc]
    rfl
  have htotal : Text.byteLength base = Text.byteLength (utility ++ ['-', '['])
      + Text.byteLength value + 1 := by
    rw [hparts, Text.byteLength_append, Text.byteLength_append]
    rfl
  exact Slicing.gives_take hparts hopened (by omega)

theorem parseBySlices_gives (base : Text) : (parseBySlices base).Gives (parse? base) := by
  unfold parseBySlices
  rw [lastOpeningOffset?_eq]
  cases hopening : lastOpening? base with
  | none =>
    rw [parse?, hopening]
    exact Slicing.gives_pure none
  | some p =>
    obtain ⟨utility, behind⟩ := p
    obtain ⟨hbase, -⟩ := lastOpening?_eq_some_iff.mp hopening
    simp only [Option.map_some, Nat.zero_add]
    by_cases hclosed : base.getLast? = some ']'
    · rw [if_pos hclosed]
      rw [hbase] at hclosed
      obtain ⟨value, rfl⟩ := getLast?_eq_close_iff.mp hclosed
      have hutility : (Slicing.take base 0 (Text.byteLength utility)).Gives utility :=
        Slicing.gives_take_front hbase rfl
      rw [parse?_of_lastOpening hopening]
      refine hutility.bind ((gives_take_value hbase).bind ?_)
      split
      · exact Slicing.gives_pure none
      · exact Slicing.gives_pure _
    · rw [if_neg hclosed, parse?, hopening]
      simp only [if_neg hclosed]
      exact Slicing.gives_pure none

end Arbitrary

end ClassLint
