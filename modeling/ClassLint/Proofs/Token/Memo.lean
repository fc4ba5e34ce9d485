/-
  ClassLint.Proofs.Token.Memo

  A memory of readings holds readings.  A token is read the same whether it is
  remembered or not, so that a check with a memory finds what one without finds.
-/

import ClassLint.Engine

namespace ClassLint

namespace TokenMemo

/-- Every remembered reading is the reading of its token. -/
def Right (memo : TokenMemo) : Prop :=
  ∀ t found, memo.tokens[t]? = some found → found.value = Token.parse t

theorem right_empty : empty.Right := by
  intro t found h
  simp [empty] at h

theorem right_clear (memo : TokenMemo) : memo.clear.Right := by
  intro t found h
  simp [clear] at h

theorem Right.parse {memo : TokenMemo} (h : memo.Right) (t : Text) :
    (memo.parse t).1.value = Token.parse t ∧ (memo.parse t).2.Right := by
  unfold TokenMemo.parse
  cases hfound : memo.tokens[t]? with
  | some found => exact ⟨h t found hfound, h⟩
  | none =>
    refine ⟨rfl, ?_⟩
    -- the new entry is right, and every other one was there before
    intro t' found' hfound'
    simp only [Std.TreeMap.getElem?_insert] at hfound'
    split at hfound'
    · next heq =>
      have ht : t = t' := by simpa using heq
      have hvalue : found' = ⟨memo.made.1, Token.parse t⟩ := by simpa using hfound'.symm
      rw [hvalue, ht]
    · exact h t' found' hfound'

/-- The reading of a token that the memory gives. -/
def reading (memo : TokenMemo) (t : Text) : Token := (memo.parse t).1.value

/-- Reading one token changes no other reading, whatever is remembered. -/
theorem reading_parse (memo : TokenMemo) (t u : Text) :
    (memo.parse t).2.reading u = memo.reading u := by
  unfold TokenMemo.parse
  cases hfound : memo.tokens[t]? with
  | some found => rfl
  | none =>
    unfold reading TokenMemo.parse
    simp only [Std.TreeMap.getElem?_insert]
    by_cases heq : compare t u = .eq
    · have ht : t = u := Std.LawfulEqOrd.compare_eq_iff_eq.mp heq
      subst ht
      simp [hfound]
    · rw [if_neg heq]
      cases memo.tokens[u]? <;> rfl

end TokenMemo

/-- Several tokens are read as each of them is read alone. -/
theorem Engine.fst_readings (memo : TokenMemo) (tokens : List Text) :
    (readings memo tokens).1 = tokens.map fun t => (t, memo.reading t) := by
  induction tokens generalizing memo with
  | nil => rfl
  | cons token rest ih =>
    simp only [readings, List.map_cons, ih, TokenMemo.reading_parse]
    rfl

/-- The readings that a right memory gives are the readings of the tokens. -/
theorem Engine.readings_eq {memo : TokenMemo} (h : memo.Right) (tokens : List Text) :
    (readings memo tokens).1 = tokens.map (fun t => (t, Token.parse t))
      ∧ (readings memo tokens).2.Right := by
  induction tokens generalizing memo with
  | nil => exact ⟨rfl, h⟩
  | cons token rest ih =>
    obtain ⟨hvalue, hright⟩ := h.parse token
    obtain ⟨hrest, hnext⟩ := ih hright
    refine ⟨?_, hnext⟩
    simp only [readings, List.map_cons]
    rw [hvalue, hrest]

/-- A check with remembered readings finds what a check of the tokens finds. -/
theorem Engine.filterMap_readings {memo : TokenMemo} (h : memo.Right) (r : Registry)
    (ignore : List NamePattern) (tokens : List Text) :
    ((readings memo tokens).1.filterMap fun p => r.checkParsed ignore p.1 p.2)
      = r.checkAll ignore tokens := by
  rw [(readings_eq h tokens).1, List.filterMap_map]
  rfl

end ClassLint
