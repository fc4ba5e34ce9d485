/-
  ClassLint.Proofs.Token.Brackets

  Which bracket closes which.  Brackets are counted: a text is balanced behind
  some open brackets if it closes all of them and its own, and nowhere closes
  one that is not open.  The bracket that matches an opening one is the first
  behind a balanced text.

  Splitting a text behind the matching bracket depends on what stands before
  that bracket only: any text whatever may follow.
-/

import ClassLint.Proofs.Text.Nesting
import ClassLint.Token

namespace ClassLint.Token

/-! ## Balance -/

/-- Behind `depth` open brackets the text closes these and its own, and no
    beginning of it closes more than are open. -/
def Balances (depth : Nat) (t : Text) : Prop :=
  t.count ']' = depth + t.count '[' ∧ ∀ p, p <+: t → p.count ']' ≤ depth + p.count '['

theorem balances_iff {depth : Nat} {t : Text} :
    Balances depth t ↔
      t.count ']' = depth + t.count '[' ∧ Text.NeverOvercloses '[' ']' depth t := Iff.rfl

theorem balances_nil {depth : Nat} : Balances depth [] ↔ depth = 0 := by
  rw [balances_iff, and_iff_left Text.neverOvercloses_nil]
  simp [eq_comm]

/-- Behind its first character a text has as many brackets open as that leaves. -/
theorem balances_cons {depth depth' : Nat} {c : Char}
    (hdepth : depth' + [c].count ']' = depth + [c].count '[') {t : Text} :
    Balances depth (c :: t) ↔ Balances depth' t := by
  rw [balances_iff, balances_iff, Text.neverOvercloses_cons hdepth, Text.count_cons_add c ']',
    Text.count_cons_add c '[']
  refine and_congr_left fun _ => ?_
  omega

/-- One more bracket is open behind an opening one. -/
theorem balances_open {depth : Nat} {t : Text} :
    Balances depth ('[' :: t) ↔ Balances (depth + 1) t :=
  balances_cons rfl

/-- One bracket less is open behind a closing one, and there has to be one. -/
theorem balances_close {depth : Nat} {t : Text} :
    Balances depth (']' :: t) ↔ ∃ d, depth = d + 1 ∧ Balances d t := by
  cases depth with
  | zero =>
    have hnot : ¬ Balances 0 (']' :: t) :=
      fun h => Text.not_neverOvercloses_close (by decide) t h.2
    simp [hnot]
  | succ d =>
    have hcons : Balances (d + 1) (']' :: t) ↔ Balances d t := balances_cons rfl
    simp [hcons]

theorem balances_other {depth : Nat} {c : Char} {t : Text} (hopen : c ≠ '[') (hclose : c ≠ ']') :
    Balances depth (c :: t) ↔ Balances depth t :=
  balances_cons (by simp [hopen, hclose])

/-! ## The matching bracket -/

/-- Behind `depth + 1` open brackets, the bracket at the end of `closed` is the
    one that closes the first of them, and `rest` is what follows it. -/
def Closes (depth : Nat) (t closed rest : Text) : Prop :=
  ∃ inner, closed = inner ++ [']'] ∧ Balances depth inner ∧ t = inner ++ ']' :: rest

/-- The matching bracket is the first character exactly if it is a closing
    bracket and no further one is open. -/
theorem closes_zero_close {r closed rest : Text} :
    Closes 0 (']' :: r) closed rest ↔ closed = [']'] ∧ r = rest := by
  constructor
  · rintro ⟨inner, hclosed, hbalances, htext⟩
    cases inner with
    | nil => exact ⟨hclosed, by simpa using htext⟩
    | cons c inner =>
      rw [List.cons_append, List.cons.injEq] at htext
      obtain ⟨rfl, -⟩ := htext
      obtain ⟨d, hd, -⟩ := balances_close.mp hbalances
      omega
  · rintro ⟨rfl, rfl⟩
    exact ⟨[], rfl, balances_nil.mpr rfl, rfl⟩

/-- In any other case it is found behind the first character, where as many
    brackets are open as that character leaves. -/
theorem closes_cons {depth d : Nat} {c : Char} {r closed rest : Text}
    (hfirst : c = ']' → depth ≠ 0)
    (hdepth : ∀ inner, Balances depth (c :: inner) ↔ Balances d inner) :
    Closes depth (c :: r) closed rest ↔ ∃ tail, Closes d r tail rest ∧ c :: tail = closed := by
  constructor
  · rintro ⟨inner, rfl, hbalances, htext⟩
    cases inner with
    | nil =>
      -- nothing stands in front of the bracket, so that no other one may be open
      rw [List.nil_append, List.cons.injEq] at htext
      exact absurd (balances_nil.mp hbalances) (hfirst htext.1)
    | cons b inner =>
      rw [List.cons_append, List.cons.injEq] at htext
      obtain ⟨rfl, rfl⟩ := htext
      exact ⟨inner ++ [']'], ⟨inner, rfl, (hdepth inner).mp hbalances, rfl⟩, rfl⟩
  · rintro ⟨tail, ⟨inner, rfl, hbalances, rfl⟩, rfl⟩
    exact ⟨c :: inner, rfl, (hdepth inner).mpr hbalances, rfl⟩

/-- A text is split behind the matching bracket, if it has one. -/
theorem closeBracket_succ_eq_some_iff {depth : Nat} {t closed rest : Text} :
    closeBracket (depth + 1) t = some (closed, rest) ↔ Closes depth t closed rest := by
  induction t generalizing depth closed with
  | nil => simp [closeBracket, Closes]
  | cons c r ih =>
    -- one character in front of the split of what follows it
    have hmap : ∀ d, (closeBracket (d + 1) r).map (fun p => (c :: p.1, p.2)) = some (closed, rest) ↔
        ∃ tail, Closes d r tail rest ∧ c :: tail = closed := by
      intro d
      simp only [Option.map_eq_some_iff, Prod.exists, Prod.mk.injEq]
      constructor
      · rintro ⟨tail, rest', hsplit, rfl, rfl⟩
        exact ⟨tail, ih.mp hsplit, rfl⟩
      · rintro ⟨tail, hcloses, rfl⟩
        exact ⟨tail, rest, ih.mpr hcloses, rfl, rfl⟩
    unfold closeBracket
    by_cases hopen : c = '['
    · subst hopen
      have hfirst : '[' = ']' → depth ≠ 0 := fun h => absurd h (by decide)
      rw [if_pos rfl, hmap, closes_cons hfirst fun inner => balances_open]
    · rw [if_neg hopen]
      by_cases hclose : c = ']'
      · subst hclose
        rw [if_pos rfl]
        cases depth with
        | zero =>
          rw [closes_zero_close]
          simp [eq_comm]
        | succ d =>
          have hdepth : ∀ inner, Balances (d + 1) (']' :: inner) ↔ Balances d inner := by
            intro inner
            simp [balances_close]
          rw [closes_cons (fun _ => d.succ_ne_zero) hdepth]
          exact hmap d
      · rw [if_neg hclose, hmap, closes_cons (absurd · hclose) fun inner =>
          balances_other hopen hclose]

end ClassLint.Token
