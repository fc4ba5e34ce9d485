/-
  ClassLint.Proofs.Stylesheet.Commas

  A selector list told by its commas.  A comma is an outer one if in front of it as
  many brackets are opened as are closed, and the pieces of a list are what stands
  between its outer commas.  This fixes the pieces: a text is cut into them in one
  way only, and the reader finds it.

  The brackets of the part that is read already are counted, with a number of open
  ones in front of the text; the first outer comma is then found from the left.
-/

import ClassLint.Proofs.Stylesheet.Escaping
import ClassLint.Proofs.Text.Pieces
import ClassLint.Proofs.Token.Arbitrary

namespace ClassLint

theorem Text.isEmpty_trim (t : Text) : (trim t).isEmpty = t.all isBlank := by
  rw [Bool.eq_iff_iff, List.isEmpty_iff, trim_eq_nil_iff, List.all_eq_true]

namespace Selector

/-! ## Brackets -/

/-- The number of brackets that a text opens, less that of those it closes. -/
def balance (t : Text) : Int :=
  (t.countP fun c => c == '(' || c == '[') - (t.countP fun c => c == ')' || c == ']')

theorem balance_nil : balance [] = 0 := rfl

/-- The reader's depth is the balance of what it has read. -/
theorem balance_cons (depth : Int) (c : Char) (t : Text) :
    depth + balance (c :: t) = depthAfter depth c + balance t := by
  unfold balance depthAfter
  rw [List.countP_cons, List.countP_cons]
  by_cases hopen : c = '(' ∨ c = '['
  · have hclose : ¬(c = ')' ∨ c = ']') := by
      rcases hopen with rfl | rfl <;> decide
    simp [hopen, hclose]
    omega
  · by_cases hclose : c = ')' ∨ c = ']'
    · simp [hopen, hclose]
      omega
    · simp [hopen, hclose]

/-! ## Outer commas -/

/-- Behind `depth` open brackets, no comma of the text is an outer one. -/
def Uncut (depth : Int) (t : Text) : Prop :=
  ∀ a b, t = a ++ ',' :: b → depth + balance a ≠ 0

theorem uncut_nil (depth : Int) : Uncut depth [] := by
  intro a b h
  simp at h

theorem uncut_cons {depth : Int} {c : Char} {t : Text} :
    Uncut depth (c :: t) ↔ ¬(c = ',' ∧ depth = 0) ∧ Uncut (depthAfter depth c) t := by
  constructor
  · intro h
    refine ⟨fun ⟨hcomma, hdepth⟩ => ?_, fun a b ht => ?_⟩
    · exact h [] t (by rw [hcomma, List.nil_append]) (by rw [hdepth, balance_nil, Int.add_zero])
    · rw [← balance_cons]
      exact h (c :: a) b (by rw [ht, List.cons_append])
  · rintro ⟨hfirst, hrest⟩ a b ht
    cases a with
    | nil =>
      obtain ⟨hcomma, -⟩ := List.cons.inj ht
      rw [balance_nil, Int.add_zero]
      exact fun hdepth => hfirst ⟨hcomma, hdepth⟩
    | cons d a =>
      obtain ⟨rfl, htail⟩ := List.cons.inj ht
      rw [balance_cons]
      exact hrest a b htail

theorem hasOuterComma_eq_false_iff {depth : Int} {t : Text} :
    Stylesheet.hasOuterComma depth t = false ↔ Uncut depth t := by
  induction t generalizing depth with
  | nil => exact iff_of_true rfl (uncut_nil depth)
  | cons c t ih =>
    rw [uncut_cons, ← ih, Stylesheet.hasOuterComma]
    simp

/-- A text without outer commas is one piece. -/
theorem splitTopLevel_of_uncut {depth : Int} {t : Text} (h : Uncut depth t) :
    splitTopLevel depth t = [t] :=
  Stylesheet.splitTopLevel_of_not_hasOuterComma (hasOuterComma_eq_false_iff.mpr h)

/-- The first outer comma ends the first piece, and behind it no bracket is open. -/
theorem splitTopLevel_append_comma {depth : Int} {a : Text} (h : Uncut depth a)
    (hbalance : depth + balance a = 0) (b : Text) :
    splitTopLevel depth (a ++ ',' :: b) = a :: splitTopLevel 0 b := by
  induction a generalizing depth with
  | nil =>
    rw [balance_nil, Int.add_zero] at hbalance
    rw [List.nil_append, splitTopLevel, if_pos ⟨rfl, hbalance⟩, hbalance]
  | cons c a ih =>
    obtain ⟨hfirst, hrest⟩ := uncut_cons.mp h
    rw [balance_cons] at hbalance
    rw [List.cons_append, splitTopLevel, if_neg hfirst, ih hrest hbalance]
    rfl

/-- A text that has an outer comma has a first one. -/
theorem uncut_or_exists (depth : Int) (t : Text) :
    Uncut depth t ∨ ∃ a b, t = a ++ ',' :: b ∧ Uncut depth a ∧ depth + balance a = 0 := by
  induction t generalizing depth with
  | nil => exact Or.inl (uncut_nil depth)
  | cons c t ih =>
    by_cases hfirst : c = ',' ∧ depth = 0
    · obtain ⟨rfl, rfl⟩ := hfirst
      exact Or.inr ⟨[], t, rfl, uncut_nil 0, rfl⟩
    · rcases ih (depthAfter depth c) with hrest | ⟨a, b, rfl, ha, hbalance⟩
      · exact Or.inl (uncut_cons.mpr ⟨hfirst, hrest⟩)
      · refine Or.inr ⟨c :: a, b, rfl, uncut_cons.mpr ⟨hfirst, ha⟩, ?_⟩
        rw [balance_cons, hbalance]

/-! ## Pieces -/

/-- The pieces are what stands between the outer commas of a text: with commas
    between them they are the text, each comma is an outer one, and there is no
    other. -/
structure IsOuterSplit (pieces : List Text) (t : Text) : Prop where
  ne_nil : pieces ≠ []
  joined : Text.join [','] pieces = t
  balanced : ∀ piece ∈ pieces.dropLast, balance piece = 0
  uncut : ∀ piece ∈ pieces, Uncut 0 piece

theorem IsOuterSplit.cons {a b : Text} {pieces : List Text} (h : IsOuterSplit pieces b)
    (ha : Uncut 0 a) (hbalance : balance a = 0) : IsOuterSplit (a :: pieces) (a ++ ',' :: b) := by
  refine ⟨List.cons_ne_nil a _, ?_, ?_, ?_⟩
  · rw [Text.join_cons h.ne_nil, h.joined]
  · rw [List.dropLast_cons_of_ne_nil h.ne_nil]
    exact List.forall_mem_cons.mpr ⟨hbalance, h.balanced⟩
  · exact List.forall_mem_cons.mpr ⟨ha, h.uncut⟩

theorem isOuterSplit_splitTopLevel (t : Text) : IsOuterSplit (splitTopLevel 0 t) t := by
  rcases uncut_or_exists 0 t with huncut | ⟨a, b, rfl, ha, hbalance⟩
  · rw [splitTopLevel_of_uncut huncut]
    exact ⟨List.cons_ne_nil t [], rfl, nofun, by simpa using huncut⟩
  · -- what stands behind the first outer comma is shorter
    rw [splitTopLevel_append_comma ha hbalance]
    rw [Int.zero_add] at hbalance
    exact (isOuterSplit_splitTopLevel b).cons ha hbalance
termination_by t.length
decreasing_by
  subst_vars
  simp
  omega

theorem IsOuterSplit.eq_splitTopLevel {pieces : List Text} {t : Text}
    (h : IsOuterSplit pieces t) : pieces = splitTopLevel 0 t := by
  induction pieces generalizing t with
  | nil => exact absurd rfl h.ne_nil
  | cons a pieces ih =>
    obtain ⟨ha, huncut⟩ := List.forall_mem_cons.mp h.uncut
    rw [← h.joined]
    cases pieces with
    | nil => exact (splitTopLevel_of_uncut ha).symm
    | cons next rest =>
      have hne : next :: rest ≠ [] := List.cons_ne_nil next rest
      have hbalanced := h.balanced
      rw [List.dropLast_cons_of_ne_nil hne] at hbalanced
      obtain ⟨hbalance, hbalanced⟩ := List.forall_mem_cons.mp hbalanced
      -- the first piece ends at the first outer comma, and the others are those of the rest
      rw [Text.join_cons hne, splitTopLevel_append_comma ha (by rw [hbalance, Int.zero_add]),
        ← ih ⟨hne, rfl, hbalanced, huncut⟩]

/-- A text is cut at its outer commas in one way, which the reader finds. -/
theorem isOuterSplit_iff {pieces : List Text} {t : Text} :
    IsOuterSplit pieces t ↔ pieces = splitTopLevel 0 t :=
  ⟨IsOuterSplit.eq_splitTopLevel, fun h => h ▸ isOuterSplit_splitTopLevel t⟩

/-! ## Selectors -/

/-- The piece is a selector: not all of it is blank. -/
def isSelector (piece : Text) : Bool := !piece.all Text.isBlank

/-- A prelude has as many selectors as pieces that are not blank. -/
theorem length_parts (prelude : Text) :
    (parts prelude).length = (splitTopLevel 0 prelude).countP isSelector := by
  unfold parts
  rw [← List.countP_eq_length_filter, List.countP_map]
  refine List.countP_congr fun piece _ => ?_
  rw [Function.comp_apply, Text.isEmpty_trim]
  rfl

/-- Inside enclosing selectors, every selector of a prelude gives as many as there are
    of these. -/
theorem length_flatten {pieces parents : List Text} {prelude : Text}
    (hpieces : IsOuterSplit pieces prelude) (hparents : parents ≠ []) :
    (flatten prelude parents).length = pieces.countP isSelector * parents.length := by
  have hsome : ¬parents.isEmpty = true := by
    rwa [List.isEmpty_iff]
  rw [flatten, if_neg hsome, isOuterSplit_iff.mp hpieces, ← length_parts, List.length_flatMap]
  simp

end Selector

end ClassLint
