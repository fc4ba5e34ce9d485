/-
  ClassLint.Proofs.Glob.Reading

  Which patterns can be read.  Whether a text can be read as a pattern depends on
  the text and on whether a step starts with it, not on where in a pattern it
  stands.  A pattern can be read if the whole of it and every piece between slashes
  can.  Nothing that `escape` gives spoils that: a pattern below an escaped directory
  can be read exactly if it can be read alone.
-/

import ClassLint.Glob
import ClassLint.Proofs.Text.Pieces
import Mathlib.Data.List.Induction

namespace ClassLint.Glob

/-- The steps of a pattern can be told. -/
def IsReadable (pattern : Text) : Prop := (steps pattern).isOk = true

instance (pattern : Text) : Decidable (IsReadable pattern) :=
  inferInstanceAs (Decidable (_ = true))

/-- A text can be read as a pattern; `stepStarts` tells whether a step starts with it. -/
def canRead (stepStarts : Bool) (t : Text) : Bool :=
  (readFrom (t.length + 1) 0 stepStarts t).isOk

theorem exists_eq_ok {ε α : Type} {x : Except ε α} (h : x.isOk = true) : ∃ a, x = .ok a := by
  cases x with
  | error e => exact absurd h Bool.false_ne_true
  | ok a => exact ⟨a, rfl⟩

theorem isOk_map {α β : Type} (f : α → β) (x : Except Fault α) : (x.map f).isOk = x.isOk := by
  cases x <;> rfl

theorem isOk_mapM_iff {α β : Type} {f : α → Except Fault β} {xs : List α} :
    (xs.mapM f).isOk = true ↔ ∀ x ∈ xs, (f x).isOk = true := by
  induction xs with
  | nil => simp [pure, Except.pure, Except.isOk, Except.toBool]
  | cons x xs ih =>
    rw [List.mapM_cons, List.forall_mem_cons, ← ih]
    cases f x with
    | error fault => simp [bind, Except.bind, Except.isOk, Except.toBool]
    | ok y => cases xs.mapM f <;> simp [bind, Except.bind, pure, Except.pure, Except.isOk,
        Except.toBool]

/-! ## One part after the other -/

theorem length_splitBracket? {t : Text} {inside behind : Text}
    (h : splitBracket? t = some (inside, behind)) : behind.length ≤ t.length := by
  cases t with
  | nil => exact absurd h (by simp [splitBracket?])
  | cons first rest =>
    simp only [splitBracket?] at h
    split at h
    · obtain ⟨-, rfl⟩ := Prod.mk.inj (Option.some.inj h)
      have hdrop := (List.dropWhile_suffix (l := rest) (· != ']')).length_le
      simp only [List.length_tail, List.length_cons]
      omega
    · exact absurd h (by simp)

theorem length_bracket? {t : Text} {part : Part} {behind : Text}
    (h : bracket? t = some (part, behind)) : behind.length ≤ t.length := by
  unfold bracket? at h
  split at h <;>
    obtain ⟨⟨inside, behind'⟩, hsplit, heq⟩ := Option.map_eq_some_iff.mp h <;>
    obtain ⟨-, rfl⟩ := Prod.mk.inj heq <;>
    have hle := length_splitBracket? hsplit
  · exact Nat.le_succ_of_le hle
  · exact hle

/-- With fuel for every character it makes no difference how much there is, nor from
    which position a text is read. -/
theorem isOk_readFrom_eq {fuel fuel' : Nat} (position position' : Nat) (stepStarts : Bool) {t : Text}
    (h : t.length < fuel) (h' : t.length < fuel') :
    (readFrom fuel position stepStarts t).isOk = (readFrom fuel' position' stepStarts t).isOk := by
  induction fuel generalizing fuel' position position' stepStarts t with
  | zero => exact absurd h (Nat.not_lt_zero _)
  | succ fuel ih =>
    obtain ⟨fuel', rfl⟩ : ∃ n, fuel' = n + 1 := ⟨fuel' - 1, by omega⟩
    cases t with
    | nil => rfl
    | cons c rest =>
      rw [List.length_cons] at h h'
      -- whatever is read first, at most `rest` is left
      have hrec : ∀ (position position' : Nat) (stepStarts : Bool) {u : Text},
          u.length ≤ rest.length →
          (readFrom fuel position stepStarts u).isOk
            = (readFrom fuel' position' stepStarts u).isOk :=
        fun position position' stepStarts u hu => ih position position' stepStarts
          (by omega) (by omega)
      unfold readFrom
      by_cases hstar : c = '*'
      · subst hstar
        have hbehind : ('*' :: rest).dropWhile (· == '*') = rest.dropWhile (· == '*') := by simp
        have hdrop := (List.dropWhile_suffix (l := rest) (· == '*')).length_le
        simp only [if_true, hbehind]
        split
        · rfl
        · split
          · rw [isOk_map, isOk_map]
            exact hrec _ _ _ hdrop
          · split
            · rfl
            · split
              · rfl
              · next heq =>
                rw [heq, List.length_cons] at hdrop
                rw [isOk_map, isOk_map]
                exact hrec _ _ _ (by omega)
              · rfl
      · simp only [if_neg hstar]
        by_cases hbracket : c = '['
        · simp only [if_pos hbracket]
          split
          · next heq =>
            rw [isOk_map, isOk_map]
            exact hrec _ _ _ (length_bracket? heq)
          · rfl
        · simp only [if_neg hbracket]
          rw [isOk_map, isOk_map]
          exact hrec _ _ _ (Nat.le_refl _)

theorem canRead_nil (stepStarts : Bool) : canRead stepStarts [] = true := rfl

/-- A character that means itself or any character can always be read. -/
theorem canRead_cons {c : Char} (hstar : c ≠ '*') (hbracket : c ≠ '[') (stepStarts : Bool)
    (t : Text) : canRead stepStarts (c :: t) = canRead (c == '/') t := by
  unfold canRead
  rw [readFrom, if_neg hstar, if_neg hbracket, isOk_map]
  exact isOk_readFrom_eq _ _ _ (by rw [List.length_cons]; omega) (by omega)

/-- So can a single character in brackets. -/
theorem canRead_bracket {c : Char} (hc : c ≠ '!') (stepStarts : Bool) (t : Text) :
    canRead stepStarts ('[' :: c :: ']' :: t) = canRead false t := by
  have hbracket : bracket? (c :: ']' :: t) = some (.among (ranges [c]), t) := by
    unfold bracket? splitBracket?
    split
    · next heq => exact absurd (List.cons.inj heq).1 hc
    · simp
  unfold canRead
  rw [readFrom, if_neg (by decide), if_pos rfl, hbracket]
  simp only
  rw [isOk_map]
  exact isOk_readFrom_eq _ _ _ (by simp only [List.length_cons]; omega) (by omega)

/-! ## Escaped texts -/

/-- The pattern that only a given character matches. -/
def escapeChar (c : Char) : Text := if "?*[]".toList.contains c then ['[', c, ']'] else [c]

theorem escape_nil : escape [] = [] := rfl

theorem escape_cons (c : Char) (t : Text) : escape (c :: t) = escapeChar c ++ escape t := rfl

theorem escape_append (a b : Text) : escape (a ++ b) = escape a ++ escape b := List.flatMap_append

/-- A character is escaped by brackets, or means itself as it stands. -/
theorem escapeChar_cases (c : Char) :
    (escapeChar c = ['[', c, ']'] ∧ c ≠ '!' ∧ c ≠ '/')
      ∨ escapeChar c = [c] ∧ c ≠ '*' ∧ c ≠ '[' := by
  unfold escapeChar
  by_cases hc : "?*[]".toList.contains c = true
  · refine Or.inl ⟨if_pos hc, ?_⟩
    constructor <;> rintro rfl <;> exact absurd hc (by decide)
  · refine Or.inr ⟨if_neg hc, ?_⟩
    constructor <;> rintro rfl <;> exact hc (by decide)

/-- An escaped text can be read, and what stands behind it decides. -/
theorem canRead_escape_append (base : Text) {t : Text} {value : Bool}
    (h : ∀ stepStarts, canRead stepStarts t = value) (stepStarts : Bool) :
    canRead stepStarts (escape base ++ t) = value := by
  induction base generalizing stepStarts with
  | nil => exact h stepStarts
  | cons c base ih =>
    rw [escape_cons, List.append_assoc]
    obtain ⟨hescape, hc, -⟩ | ⟨hescape, hstar, hbracket⟩ := escapeChar_cases c
    · rw [hescape]
      exact (canRead_bracket hc stepStarts _).trans (ih false)
    · rw [hescape]
      exact (canRead_cons hstar hbracket stepStarts _).trans (ih _)

/-- Slashes stay what they are when a text is escaped. -/
theorem pieces_escape (t : Text) : Path.pieces (escape t) = (Path.pieces t).map escape := by
  unfold Path.pieces
  induction t with
  | nil => rfl
  | cons c t ih =>
    obtain ⟨piece, rest, hsplit⟩ := List.exists_cons_of_ne_nil (Text.split_ne_nil (· == '/') t)
    rw [hsplit, List.map_cons] at ih
    rw [escape_cons, Text.split_cons _ c, hsplit]
    obtain ⟨hescape, -, hslash⟩ | ⟨hescape, -, -⟩ := escapeChar_cases c
    · have hc : (c == '/') = false := by simpa using hslash
      have hpiece : escape (c :: piece) = '[' :: c :: ']' :: escape piece := by
        rw [escape_cons, hescape]
        rfl
      simp [hescape, Text.split_cons, ih, hc, Text.extendFirst, hpiece]
    · have hpiece : escape (c :: piece) = c :: escape piece := by
        rw [escape_cons, hescape]
        rfl
      rw [hescape, List.singleton_append, Text.split_cons, ih]
      split
      · rfl
      · rw [Text.extendFirst, Text.extendFirst, List.map_cons, hpiece]

/-- Slashes at the end of an escaped text are slashes at the end of the text. -/
theorem exists_escape_eq_dropSlashes (t : Text) :
    ∃ base, ((escape t).reverse.dropWhile (· == '/')).reverse = escape base := by
  induction t using List.reverseRecOn with
  | nil => exact ⟨[], rfl⟩
  | append_singleton t c ih =>
    have happend : escape (t ++ [c]) = escape t ++ escapeChar c := by
      rw [escape_append, escape_cons, escape_nil, List.append_nil]
    by_cases hc : c = '/'
    · subst hc
      obtain ⟨base, hbase⟩ := ih
      refine ⟨base, ?_⟩
      rw [happend, ← hbase]
      simp [escapeChar]
    · refine ⟨t ++ [c], ?_⟩
      rw [happend]
      obtain ⟨hescape, -, -⟩ | ⟨hescape, -, -⟩ := escapeChar_cases c <;> simp [hescape, hc]

/-! ## Whole patterns -/

/-- The steps of a pattern are the pieces between slashes, but for empty ones. -/
theorem forall_stepTexts {P : Text → Prop} (hempty : P []) (pattern : Text) :
    (∀ step ∈ stepTexts pattern, P step) ↔ ∀ piece ∈ Path.pieces pattern, P piece := by
  have hbody : (∀ piece ∈ Path.pieces (if pattern.head? = some '/' then pattern.tail else pattern),
      P piece) ↔ ∀ piece ∈ Path.pieces pattern, P piece := by
    split
    · next hslash =>
      obtain ⟨tail, rfl⟩ := List.head?_eq_some_iff.mp hslash
      have hpieces : Path.pieces ('/' :: tail) = [] :: Path.pieces tail := rfl
      rw [hpieces, List.forall_mem_cons, List.tail_cons]
      exact (and_iff_right hempty).symm
    · rfl
  unfold stepTexts
  rw [← hbody]
  simp only
  generalize Path.pieces (if pattern.head? = some '/' then pattern.tail else pattern) = pieces
  split
  · rfl
  · split
    · next h =>
      obtain ⟨front, rfl⟩ := List.getLast?_eq_some_iff.mp h
      rw [List.dropLast_concat, List.forall_mem_append, List.forall_mem_singleton]
      exact (and_iff_left hempty).symm
    · rfl

/-- A pattern can be read if the whole of it can and every piece between slashes. -/
theorem isReadable_iff {pattern : Text} :
    IsReadable pattern ↔ canRead true pattern = true
      ∧ ∀ piece ∈ Path.pieces pattern, canRead true piece = true := by
  have hsteps : (steps pattern).isOk
      = ((read pattern).isOk && ((stepTexts pattern).mapM read).isOk) := by
    unfold steps
    cases read pattern with
    | error fault => rfl
    | ok parts => cases (stepTexts pattern).mapM read <;> rfl
  rw [IsReadable, hsteps, Bool.and_eq_true, isOk_mapM_iff,
    ← forall_stepTexts (P := fun piece => canRead true piece = true) (canRead_nil true)]
  rfl

/-- **A pattern below an escaped directory can be read exactly if it can be read
    alone.** -/
theorem isReadable_escape_append (base pattern : Text) :
    IsReadable (escape base ++ '/' :: pattern) ↔ IsReadable pattern := by
  have hslash : ∀ stepStarts, canRead stepStarts ('/' :: pattern) = canRead true pattern :=
    fun stepStarts => canRead_cons (by decide) (by decide) stepStarts pattern
  have hescaped : ∀ piece ∈ (Path.pieces base).map escape, canRead true piece = true := by
    intro piece hpiece
    obtain ⟨name, -, rfl⟩ := List.mem_map.mp hpiece
    have hread := canRead_escape_append name (fun stepStarts => canRead_nil stepStarts) true
    rwa [List.append_nil] at hread
  have hpieces : Path.pieces (escape base ++ '/' :: pattern)
      = (Path.pieces base).map escape ++ Path.pieces pattern := by
    rw [← pieces_escape]
    exact Text.split_append_cons rfl _ _
  -- the pieces of the directory can all be read, and behind a slash a step starts
  rw [isReadable_iff, isReadable_iff, canRead_escape_append base hslash, hpieces,
    List.forall_mem_append]
  exact and_congr_right fun _ => and_iff_right hescaped

/-- The paths that a pattern matches can be told exactly if the pattern can be read. -/
theorem isOk_paths (t : FileTree) (pattern : Text) :
    (paths t pattern).isOk = true ↔ IsReadable pattern := by
  unfold paths IsReadable
  cases steps pattern <;> rfl

end ClassLint.Glob
