/-
  ClassLint.Proofs.Token.Grammar

  The grammar of tokens, and that it is unambiguous.  A variant is a matched
  pair of brackets with what stands between them, or a text without colons that
  opens no bracket.  A base is what no variant can be split off from: a text
  without colons, or one that opens a bracket which is never closed or whose
  closing bracket no colon follows.

  Every text is the written form of exactly one token of this grammar, and
  reading finds that token.  Both directions rest on one step: a variant is
  split off exactly if the text is that variant, a colon and the rest.
-/

import ClassLint.Proofs.Token.Base
import ClassLint.Proofs.Token.Brackets

namespace ClassLint.Token

/-! ## The grammar -/

/-- A bracket opens at the first character and the matching one is the last. -/
def IsBracketed (v : Text) : Prop :=
  ∃ inner, v = '[' :: (inner ++ [']']) ∧ Balances 0 inner

/-- What may stand in front of a colon. -/
def IsVariant (v : Text) : Prop :=
  IsBracketed v ∨ (v.head? ≠ some '[' ∧ ':' ∉ v)

/-- What may stand behind all variants. -/
def IsBase (b : Text) : Prop :=
  ':' ∉ b
    ∨ (b.head? = some '[' ∧ ¬ ∃ closed rest, IsBracketed closed ∧ b = closed ++ rest)
    ∨ ∃ closed rest, IsBracketed closed ∧ b = closed ++ rest ∧ rest.head? ≠ some ':'

/-- A token of the grammar. -/
structure IsWellFormed (token : Token) : Prop where
  variants : ∀ v ∈ token.variants, IsVariant v
  base : IsBase token.base

theorem IsBracketed.head?_append {v : Text} (h : IsBracketed v) (rest : Text) :
    (v ++ rest).head? = some '[' := by
  obtain ⟨inner, rfl, -⟩ := h
  rfl

theorem head?_append_colon_ne {v : Text} (h : v.head? ≠ some '[') (rest : Text) :
    (v ++ ':' :: rest).head? ≠ some '[' := by
  cases v with
  | nil => simp
  | cons c v => exact h

/-! ## Splitting at brackets -/

/-- A text that opens a bracket is split behind the matching one. -/
theorem closeBracket_zero_eq_some_iff {t closed rest : Text} (hopen : t.head? = some '[') :
    closeBracket 0 t = some (closed, rest) ↔ IsBracketed closed ∧ t = closed ++ rest := by
  obtain ⟨r, rfl⟩ := List.head?_eq_some_iff.mp hopen
  have hmap : closeBracket 0 ('[' :: r) = (closeBracket 1 r).map fun p => ('[' :: p.1, p.2) := by
    simp [closeBracket]
  simp only [hmap, Option.map_eq_some_iff, Prod.exists, Prod.mk.injEq,
    closeBracket_succ_eq_some_iff]
  constructor
  · rintro ⟨tail, rest', ⟨inner, rfl, hbalances, rfl⟩, rfl, rfl⟩
    exact ⟨⟨inner, rfl, hbalances⟩, by simp⟩
  · rintro ⟨⟨inner, rfl, hbalances⟩, htext⟩
    refine ⟨inner ++ [']'], rest, ⟨inner, rfl, hbalances, ?_⟩, rfl, rfl⟩
    simpa using htext

/-- There is one way only to split a text behind its bracket. -/
theorem IsBracketed.append_inj {closed closed' rest rest' : Text} (h : IsBracketed closed)
    (h' : IsBracketed closed') (heq : closed ++ rest = closed' ++ rest') :
    closed = closed' ∧ rest = rest' := by
  have hopen := h.head?_append rest
  have hsplit := (closeBracket_zero_eq_some_iff hopen).mpr ⟨h, rfl⟩
  rw [(closeBracket_zero_eq_some_iff hopen).mpr ⟨h', heq⟩] at hsplit
  simp only [Option.some.injEq, Prod.mk.injEq] at hsplit
  exact ⟨hsplit.1.symm, hsplit.2.symm⟩

/-! ## Splitting off a variant -/

theorem splitVariant_of_open {t v rest : Text} (hopen : t.head? = some '[') :
    splitVariant t = some (v, rest) ↔ IsBracketed v ∧ t = v ++ ':' :: rest := by
  rw [← closeBracket_zero_eq_some_iff hopen]
  unfold splitVariant
  rw [if_pos hopen]
  split
  · next closed behind hclose => simp [hclose]
  · next hclose =>
    -- the bracket is closed with a colon behind it in the first case only
    simp only [reduceCtorEq, false_iff]
    exact hclose v rest

theorem splitVariant_of_plain {t v rest : Text} (hplain : t.head? ≠ some '[') :
    splitVariant t = some (v, rest) ↔ ':' ∉ v ∧ t = v ++ ':' :: rest := by
  unfold splitVariant
  rw [if_neg hplain]
  constructor
  · intro h
    have htext := List.takeWhile_append_dropWhile (p := (· != ':')) (l := t)
    split at h
    · simp at h
    · next c behind hdrop =>
      have hcolon : c = ':' := by
        have := List.head?_dropWhile_not (· != ':') t
        simpa [hdrop] using this
      simp only [Option.some.injEq, Prod.mk.injEq] at h
      obtain ⟨rfl, rfl⟩ := h
      rw [hdrop, hcolon] at htext
      refine ⟨?_, htext.symm⟩
      intro hmem
      have hall := List.all_takeWhile (p := (· != ':')) (l := t)
      simpa using List.all_eq_true.mp hall ':' hmem
  · rintro ⟨hcolon, rfl⟩
    have hall : ∀ c ∈ v, (c != ':') = true := by
      intro c hc
      simpa using fun h : c = ':' => hcolon (h ▸ hc)
    rw [List.dropWhile_append_of_pos hall, List.takeWhile_append_of_pos hall]
    simp

/-- A variant is split off exactly where the text is a variant, a colon and the rest. -/
theorem splitVariant_eq_some_iff {t v rest : Text} :
    splitVariant t = some (v, rest) ↔ IsVariant v ∧ t = v ++ ':' :: rest := by
  unfold IsVariant
  by_cases hopen : t.head? = some '['
  · rw [splitVariant_of_open hopen]
    constructor
    · rintro ⟨hbracketed, htext⟩
      exact ⟨Or.inl hbracketed, htext⟩
    · rintro ⟨hbracketed | ⟨hhead, -⟩, htext⟩
      · exact ⟨hbracketed, htext⟩
      · rw [htext] at hopen
        exact absurd hopen (head?_append_colon_ne hhead rest)
  · rw [splitVariant_of_plain hopen]
    constructor
    · rintro ⟨hcolon, rfl⟩
      refine ⟨Or.inr ⟨?_, hcolon⟩, rfl⟩
      intro hhead
      exact hopen (by rw [List.head?_append, hhead]; rfl)
    · rintro ⟨hbracketed | ⟨-, hcolon⟩, rfl⟩
      · exact absurd (hbracketed.head?_append _) hopen
      · exact ⟨hcolon, rfl⟩

theorem splitVariant_eq_none_iff {t : Text} : splitVariant t = none ↔ IsBase t := by
  have hnone : splitVariant t = none ↔ ∀ v rest, IsVariant v → t ≠ v ++ ':' :: rest := by
    simp only [Option.eq_none_iff_forall_ne_some, Prod.forall, ne_eq, splitVariant_eq_some_iff,
      not_and]
  rw [hnone]
  constructor
  · intro hsplit
    by_cases hcolon : ':' ∈ t
    · right
      by_cases hclosed : ∃ closed rest, IsBracketed closed ∧ t = closed ++ rest
      · right
        obtain ⟨closed, rest, hbracketed, rfl⟩ := hclosed
        refine ⟨closed, rest, hbracketed, rfl, ?_⟩
        intro hhead
        obtain ⟨behind, rfl⟩ := List.head?_eq_some_iff.mp hhead
        exact hsplit closed behind (Or.inl hbracketed) rfl
      · left
        refine ⟨Decidable.byContradiction fun hplain => ?_, hclosed⟩
        -- what stands in front of the first colon would be a variant
        obtain ⟨v, rest, rfl, hv⟩ := List.eq_append_cons_of_mem hcolon
        refine hsplit v rest (Or.inr ⟨?_, hv⟩) rfl
        intro hopen
        exact hplain (by rw [List.head?_append, hopen]; rfl)
    · exact Or.inl hcolon
  · rintro hbase v rest hvariant rfl
    rcases hbase with hcolon | ⟨hopen, hclosed⟩ | ⟨closed, behind, hbracketed, heq, hhead⟩
    · exact hcolon (by simp)
    · rcases hvariant with hbracketed | ⟨hplain, -⟩
      · exact hclosed ⟨v, ':' :: rest, hbracketed, rfl⟩
      · exact head?_append_colon_ne hplain rest hopen
    · rcases hvariant with hv | ⟨hplain, -⟩
      · obtain ⟨-, rfl⟩ := hv.append_inj hbracketed heq
        exact hhead rfl
      · have hopen := hbracketed.head?_append behind
        rw [← heq] at hopen
        exact head?_append_colon_ne hplain rest hopen

/-! ## Reading and writing -/

theorem isWellFormed_parse (t : Text) : (parse t).IsWellFormed := by
  fun_induction parse t with
  | case1 t variant rest h ih =>
    -- the variant that is split off comes on top of those of the rest
    obtain ⟨hvariant, -⟩ := splitVariant_eq_some_iff.mp h
    refine ⟨?_, ih.base⟩
    intro v hv
    rcases List.mem_cons.mp hv with rfl | hv
    · exact hvariant
    · exact ih.variants v hv
  | case2 t h => exact ⟨by simp, splitVariant_eq_none_iff.mp h⟩

theorem render_parse (t : Text) : (parse t).render = t := by
  fun_induction parse t with
  | case1 t variant rest h ih =>
    rw [render_under, ih]
    exact (splitVariant_eq_some_iff.mp h).2.symm
  | case2 t h => rfl

/-- A token of the grammar is read as it was written. -/
theorem parse_render {token : Token} (h : token.IsWellFormed) : parse token.render = token := by
  obtain ⟨variants, base⟩ := token
  induction variants with
  | nil => exact parse_of_splitVariant_none (splitVariant_eq_none_iff.mpr h.base)
  | cons v variants ih =>
    have hv : IsVariant v := h.variants v List.mem_cons_self
    have hrest : IsWellFormed ⟨variants, base⟩ :=
      ⟨fun w hw => h.variants w (List.mem_cons_of_mem v hw), h.base⟩
    have hsplit : splitVariant (render ⟨v :: variants, base⟩)
        = some (v, render ⟨variants, base⟩) := splitVariant_eq_some_iff.mpr ⟨hv, rfl⟩
    rw [parse_of_splitVariant hsplit, ih hrest]
    rfl

/-- **The grammar is unambiguous and loses nothing.**  A token is read from a
    text exactly if it is a token of the grammar and the text is its written
    form; so there is one such token for every text.  The base that is read is
    read as itself, without variants. -/
theorem parse_eq_iff (t : Text) (token : Token) :
    (parse t = token ↔ token.IsWellFormed ∧ token.render = t)
      ∧ parse (parse t).base = ⟨[], (parse t).base⟩ := by
  refine ⟨?_, parse_base t⟩
  constructor
  · rintro rfl
    exact ⟨isWellFormed_parse t, render_parse t⟩
  · rintro ⟨hformed, rfl⟩
    exact parse_render hformed

example : parse "lg:[&:is(a[b])]:[mask:x]".toList
    = ⟨["lg".toList, "[&:is(a[b])]".toList], "[mask:x]".toList⟩ := by decide +kernel

end ClassLint.Token
