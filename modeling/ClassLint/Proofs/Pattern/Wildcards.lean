/-
  ClassLint.Proofs.Pattern.Wildcards

  What a pattern means, and that it is matched so.  A name fits a pattern if it
  can be had from it by putting text on one line in place of every maximal run of
  `*`; all other characters stand for themselves, whatever they mean elsewhere.

  Two facts carry this.  The rows of the matcher tell for each suffix of the name
  whether the parts behind a place match it.  And the parts that are compiled
  from the pieces between `*` mean what the pattern means: where a run of `*`
  begins, one wildcard is added, and the empty pieces inside it add no other.
-/

import ClassLint.Pattern
import ClassLint.Proofs.Text.Pieces

namespace ClassLint.NamePattern

/-! ## Meaning -/

/-- The name can be had from the pattern by putting text on one line in place of
    each maximal run of `*`. -/
inductive Denotes : Text → Text → Prop where
  | done : Denotes [] []
  | letter {c : Char} {pattern name : Text} (hletter : c ≠ '*') (hrest : Denotes pattern name) :
      Denotes (c :: pattern) (c :: name)
  /-- A run of one or more `*` that ends here. -/
  | run {k : Nat} {pattern filler name : Text} (hend : pattern.head? ≠ some '*')
      (hline : '\n' ∉ filler) (hrest : Denotes pattern name) :
      Denotes (List.replicate (k + 1) '*' ++ pattern) (filler ++ name)

/-- Behind some text on one line stands what is asked for. -/
def Spans (matched : Text → Prop) (name : Text) : Prop :=
  ∃ filler behind, name = filler ++ behind ∧ '\n' ∉ filler ∧ matched behind

theorem Spans.congr {matched matched' : Text → Prop} (h : ∀ name, matched name ↔ matched' name)
    (name : Text) : Spans matched name ↔ Spans matched' name := by
  simp only [Spans, h]

theorem spans_nil {matched : Text → Prop} : Spans matched [] ↔ matched [] := by
  constructor
  · rintro ⟨filler, behind, hname, -, hbehind⟩
    rw [(List.append_eq_nil_iff.mp hname.symm).2] at hbehind
    exact hbehind
  · intro h
    exact ⟨[], [], rfl, List.not_mem_nil, h⟩

/-- The text in between is empty, or it has one more character that ends no line. -/
theorem spans_cons {matched : Text → Prop} {d : Char} {name : Text} :
    Spans matched (d :: name) ↔ matched (d :: name) ∨ (d ≠ '\n' ∧ Spans matched name) := by
  constructor
  · rintro ⟨filler, behind, hname, hline, hbehind⟩
    cases filler with
    | nil =>
      rw [hname]
      exact Or.inl hbehind
    | cons c filler =>
      rw [List.cons_append, List.cons.injEq] at hname
      obtain ⟨rfl, rfl⟩ := hname
      obtain ⟨hd, hline⟩ := List.ne_and_not_mem_of_not_mem_cons hline
      exact Or.inr ⟨Ne.symm hd, filler, behind, rfl, hline, hbehind⟩
  · rintro (h | ⟨hd, filler, behind, rfl, hline, hbehind⟩)
    · exact ⟨[], d :: name, rfl, List.not_mem_nil, h⟩
    · exact ⟨d :: filler, behind, rfl, List.not_mem_cons_of_ne_of_not_mem (Ne.symm hd) hline,
        hbehind⟩

/-! ## The meaning by the front of the pattern -/

theorem denotes_nil {name : Text} : Denotes [] name ↔ name = [] := by
  constructor
  · intro h
    generalize hpattern : ([] : Text) = pattern at h
    cases h with
    | done => rfl
    | letter => exact absurd hpattern.symm (List.cons_ne_nil _ _)
    | run => exact absurd hpattern.symm (by simp [List.replicate_succ])
  · rintro rfl
    exact .done

theorem denotes_letter {c : Char} (hc : c ≠ '*') {pattern name : Text} :
    Denotes (c :: pattern) name ↔ ∃ behind, name = c :: behind ∧ Denotes pattern behind := by
  constructor
  · intro h
    generalize hpattern : c :: pattern = whole at h
    cases h with
    | done => exact absurd hpattern (List.cons_ne_nil c pattern)
    | letter _ hrest =>
      obtain ⟨rfl, rfl⟩ := List.cons.inj hpattern
      exact ⟨_, rfl, hrest⟩
    | run =>
      rw [List.replicate_succ, List.cons_append, List.cons.injEq] at hpattern
      exact absurd hpattern.1 hc
  · rintro ⟨behind, rfl, hrest⟩
    exact .letter hc hrest

/-- Text without `*` stands for itself. -/
theorem denotes_append {text : Text} (htext : '*' ∉ text) {pattern name : Text} :
    Denotes (text ++ pattern) name ↔ ∃ behind, name = text ++ behind ∧ Denotes pattern behind := by
  induction text generalizing name with
  | nil => simp
  | cons c text ih =>
    obtain ⟨hc, htext⟩ := List.ne_and_not_mem_of_not_mem_cons htext
    rw [List.cons_append, denotes_letter (Ne.symm hc)]
    constructor
    · rintro ⟨_, rfl, hrest⟩
      obtain ⟨behind, rfl, hbehind⟩ := (ih htext).mp hrest
      exact ⟨behind, rfl, hbehind⟩
    · rintro ⟨behind, rfl, hrest⟩
      exact ⟨text ++ behind, rfl, (ih htext).mpr ⟨behind, rfl, hrest⟩⟩

/-- A `*` is the first of a run, and the run stands for text on one line. -/
theorem denotes_cons_star {pattern name : Text} :
    Denotes ('*' :: pattern) name ↔
      ∃ k rest, pattern = List.replicate k '*' ++ rest ∧ rest.head? ≠ some '*'
        ∧ Spans (Denotes rest) name := by
  constructor
  · intro h
    generalize hpattern : '*' :: pattern = whole at h
    cases h with
    | done => exact absurd hpattern (List.cons_ne_nil '*' pattern)
    | letter hletter => exact absurd (List.cons.inj hpattern).1.symm hletter
    | @run k rest filler behind hend hline hrest =>
      rw [List.replicate_succ, List.cons_append, List.cons.injEq] at hpattern
      exact ⟨k, rest, hpattern.2, hend, filler, behind, rfl, hline, hrest⟩
  · rintro ⟨k, rest, rfl, hend, filler, behind, rfl, hline, hrest⟩
    exact .run (k := k) hend hline hrest

/-- A single `*` stands for any text on one line. -/
theorem denotes_star {pattern : Text} (hend : pattern.head? ≠ some '*') {name : Text} :
    Denotes ('*' :: pattern) name ↔ Spans (Denotes pattern) name := by
  rw [denotes_cons_star]
  constructor
  · rintro ⟨k, rest, hpattern, -, hspans⟩
    cases k with
    | zero =>
      rw [hpattern]
      exact hspans
    | succ k =>
      -- the run would go on behind the `*`
      rw [hpattern] at hend
      exact absurd rfl hend
  · intro hspans
    exact ⟨0, pattern, rfl, hend, hspans⟩

/-- A further `*` in a run makes no difference. -/
theorem denotes_star_star {pattern name : Text} :
    Denotes ('*' :: '*' :: pattern) name ↔ Denotes ('*' :: pattern) name := by
  rw [denotes_cons_star, denotes_cons_star]
  constructor
  · rintro ⟨k, rest, hpattern, hend, hspans⟩
    cases k with
    | zero =>
      rw [List.replicate_zero, List.nil_append] at hpattern
      rw [← hpattern] at hend
      exact absurd rfl hend
    | succ k =>
      rw [List.replicate_succ, List.cons_append, List.cons.injEq] at hpattern
      exact ⟨k, rest, hpattern.2, hend, hspans⟩
  · rintro ⟨k, rest, rfl, hend, hspans⟩
    exact ⟨k + 1, rest, rfl, hend, hspans⟩

/-! ## Rows -/

/-- What parts match: texts that follow each other, with text on one line in place
    of every wildcard. -/
def Reads : List Part → Text → Prop
  | [], name => name = []
  | .exactly text :: rest, name => ∃ behind, name = text ++ behind ∧ Reads rest behind
  | .anything :: rest, name => Spans (Reads rest) name

/-- The row tells for each suffix of the name, longest first, whether it is matched. -/
inductive Tells (matched : Text → Prop) : Text → List Bool → Prop where
  | nil {here : Bool} (hhere : here = true ↔ matched []) : Tells matched [] [here]
  | cons {d : Char} {name : Text} {here : Bool} {row : List Bool}
      (hhere : here = true ↔ matched (d :: name)) (hrest : Tells matched name row) :
      Tells matched (d :: name) (here :: row)

namespace Tells

variable {matched : Text → Prop} {name : Text} {row : List Bool}

theorem head (h : Tells matched name row) : row.headD false = true ↔ matched name := by
  cases h with
  | nil hhere => exact hhere
  | cons hhere => exact hhere

theorem congr {matched' : Text → Prop} (h : Tells matched name row)
    (heq : ∀ name, matched name ↔ matched' name) : Tells matched' name row := by
  induction h with
  | nil hhere => exact .nil (hhere.trans (heq []))
  | cons hhere _ ih => exact .cons (hhere.trans (heq _)) ih

theorem literalRow (h : Tells matched name row) (c : Char) :
    Tells (fun name => ∃ behind, name = c :: behind ∧ matched behind) name
      (literalRow c name row) := by
  induction h with
  | nil => exact .nil (by simp)
  | @cons d name here row _ hrest ih =>
    refine .cons ?_ ih
    rw [Bool.and_eq_true, hrest.head, beq_iff_eq]
    constructor
    · rintro ⟨rfl, hmatched⟩
      exact ⟨name, rfl, hmatched⟩
    · rintro ⟨behind, hname, hmatched⟩
      obtain ⟨rfl, rfl⟩ := List.cons.inj hname
      exact ⟨rfl, hmatched⟩

theorem exactly (h : Tells matched name row) (text : Text) :
    Tells (fun name => ∃ behind, name = text ++ behind ∧ matched behind) name
      (text.foldr (NamePattern.literalRow · name) row) := by
  induction text with
  | nil => exact h.congr fun name => by simp
  | cons c text ih =>
    refine (ih.literalRow c).congr fun name => ?_
    constructor
    · rintro ⟨_, rfl, behind, rfl, hmatched⟩
      exact ⟨behind, rfl, hmatched⟩
    · rintro ⟨behind, rfl, hmatched⟩
      exact ⟨text ++ behind, rfl, behind, rfl, hmatched⟩

theorem wildcardRow (h : Tells matched name row) :
    Tells (Spans matched) name (wildcardRow name row) := by
  induction h with
  | nil hhere => exact .nil (hhere.trans spans_nil.symm)
  | cons hhere _ ih =>
    refine .cons ?_ ih
    rw [spans_cons, Bool.or_eq_true, Bool.and_eq_true, ih.head, hhere, bne_iff_ne]

theorem empty (name : Text) : Tells (· = []) name (name.map (fun _ => false) ++ [true]) := by
  induction name with
  | nil => exact .nil (by simp)
  | cons d name ih => exact .cons (by simp) ih

end Tells

/-- The row of the parts tells what they match. -/
theorem tells_suffixRow (name : Text) (parts : List Part) :
    Tells (Reads parts) name (suffixRow name parts) := by
  -- the row is made from the last part on, as the induction goes
  induction parts with
  | nil => exact Tells.empty name
  | cons part rest ih =>
    cases part with
    | exactly text => exact ih.exactly text
    | anything => exact ih.wildcardRow

/-! ## Compiling -/

/-- What the pieces behind the first one add; the flag says that the last part so
    far is a wildcard. -/
def Assembly.added (afterStar : Bool) : List Text → List Part
  | [] => []
  | piece :: pieces =>
    (if afterStar then [] else [.anything]) ++ (if piece.isEmpty then [] else [.exactly piece])
      ++ added piece.isEmpty pieces

namespace Assembly

/-- Once there are parts, a piece is only ever put behind them. -/
theorem parts_foldl_add {a : Assembly} (ha : a.parts ≠ []) (pieces : List Text) :
    (pieces.foldl add a).parts = a.parts ++ added a.afterStar pieces := by
  induction pieces generalizing a with
  | nil => exact (List.append_nil _).symm
  | cons piece pieces ih =>
    obtain ⟨parts, afterStar⟩ := a
    have hadd : (add ⟨parts, afterStar⟩ piece).parts = parts
        ++ ((if afterStar then [] else [.anything]) ++ if piece.isEmpty then [] else [.exactly piece]) := by
      cases hpiece : piece.isEmpty <;> cases afterStar <;> simp [add, hpiece, ha]
    have hflag : (add ⟨parts, afterStar⟩ piece).afterStar = piece.isEmpty := by
      cases hpiece : piece.isEmpty <;> cases afterStar <;> simp [add, hpiece]
    have hne : (add ⟨parts, afterStar⟩ piece).parts ≠ [] := by
      rw [hadd]
      simp [ha]
    rw [List.foldl_cons, ih hne, hadd, hflag, added, List.append_assoc, List.append_assoc]

/-- An empty piece always leaves a wildcard behind. -/
theorem afterStar_add_nil (a : Assembly) : (a.add []).afterStar = true := by
  obtain ⟨parts, afterStar⟩ := a
  cases afterStar <;> rfl

end Assembly

/-- The end of a pattern never needs a wildcard of its own: behind a `*` at the end
    there is an empty piece, and it has added one. -/
theorem partsOf_eq (source : Text) :
    partsOf source = ((Text.split (· == '*') source).foldl Assembly.add .start).parts := by
  unfold partsOf Assembly.finish
  rw [ite_eq_right_iff]
  intro hend
  simp only [Bool.and_eq_true, beq_iff_eq, Bool.not_eq_true'] at hend
  obtain ⟨hlast, hflag⟩ := hend
  obtain ⟨front, rfl⟩ := List.getLast?_eq_some_iff.mp hlast
  have hsplit : Text.split (· == '*') (front ++ ['*']) = Text.split (· == '*') front ++ [[]] :=
    Text.split_append_cons rfl front []
  rw [hsplit, List.foldl_append, List.foldl_cons, List.foldl_nil,
    Assembly.afterStar_add_nil] at hflag
  exact Bool.noConfusion hflag

/-- Where the last part is no wildcard, the next piece brings one. -/
theorem reads_added {pieces : List Text}
    (h : ∀ name, Spans (Reads (Assembly.added true pieces)) name
      ↔ Denotes ('*' :: pieces.flatMap ('*' :: ·)) name) (name : Text) :
    Reads (Assembly.added false pieces) name ↔ Denotes (pieces.flatMap ('*' :: ·)) name := by
  cases pieces with
  | nil => exact denotes_nil.symm
  | cons piece pieces =>
    rw [List.flatMap_cons, List.cons_append, ← denotes_star_star]
    exact h name

/-- Behind a `*`, with its wildcard in front, the parts of the further pieces mean
    what the rest of the pattern means. -/
theorem spans_added {pieces : List Text} (hpieces : ∀ piece ∈ pieces, '*' ∉ piece) {name : Text} :
    Spans (Reads (Assembly.added true pieces)) name
      ↔ Denotes ('*' :: pieces.flatMap ('*' :: ·)) name := by
  induction pieces generalizing name with
  | nil =>
    have hend : ([] : Text).head? ≠ some '*' := nofun
    rw [List.flatMap_nil, denotes_star hend]
    exact Spans.congr (fun _ => denotes_nil.symm) name
  | cons piece pieces ih =>
    obtain ⟨hpiece, hfurther⟩ := List.forall_mem_cons.mp hpieces
    rw [List.flatMap_cons, List.cons_append, denotes_star_star]
    cases piece with
    | nil => exact ih hfurther
    | cons c piece =>
      -- the run of `*` ends at the first character of the piece
      have hc : '*' ≠ c := List.ne_of_not_mem_cons hpiece
      rw [List.cons_append, denotes_star (by simpa using Ne.symm hc)]
      refine Spans.congr (fun behind => ?_) name
      rw [← List.cons_append, denotes_append hpiece]
      refine exists_congr fun rest => and_congr_right fun _ => ?_
      exact reads_added (fun _ => ih hfurther) rest

/-- The parts of a pattern mean what the pattern means. -/
theorem reads_partsOf {source : Text} (hsource : source ≠ []) (name : Text) :
    Reads (partsOf source) name ↔ Denotes source name := by
  obtain ⟨piece, pieces, hsplit⟩ :=
    List.exists_cons_of_ne_nil (Text.split_ne_nil (· == '*') source)
  have hstars : ∀ p ∈ piece :: pieces, '*' ∉ p := by
    intro p hp hstar
    exact absurd (Text.not_separates_of_mem_split (hsplit ▸ hp) hstar) (by decide)
  obtain ⟨hpiece, hpieces⟩ := List.forall_mem_cons.mp hstars
  have hbehind : ∀ name, Reads (Assembly.added false pieces) name
      ↔ Denotes (pieces.flatMap ('*' :: ·)) name :=
    reads_added fun _ => spans_added hpieces
  rw [partsOf_eq, hsplit, List.foldl_cons]
  rw [← Text.append_flatMap_of_split hsplit] at hsource ⊢
  cases piece with
  | nil =>
    -- the pattern starts with a run of `*`, whose wildcard stands in front of all parts
    have hparts : (pieces.foldl Assembly.add (Assembly.start.add [])).parts
        = .anything :: Assembly.added true pieces :=
      Assembly.parts_foldl_add (List.cons_ne_nil _ _) pieces
    cases pieces with
    | nil => exact absurd rfl hsource
    | cons next pieces =>
      rw [hparts, List.nil_append, List.flatMap_cons, List.cons_append, ← denotes_star_star]
      exact spans_added hpieces
  | cons c piece =>
    have hparts : (pieces.foldl Assembly.add (Assembly.start.add (c :: piece))).parts
        = .exactly (c :: piece) :: Assembly.added false pieces :=
      Assembly.parts_foldl_add (List.cons_ne_nil _ _) pieces
    rw [hparts, denotes_append hpiece]
    exact exists_congr fun behind => and_congr_right fun _ => hbehind behind

/-! ## Matching -/

theorem accepts_wildcard_iff {source : Text} (hsource : source ≠ []) (name : Text) :
    (wildcard source (partsOf source)).accepts name = true ↔ Denotes source name :=
  (tells_suffixRow name (partsOf source)).head.trans (reads_partsOf hsource name)

/-- A pattern without `*` stands for itself alone. -/
theorem denotes_of_not_mem {source : Text} (hstar : '*' ∉ source) (name : Text) :
    Denotes source name ↔ name = source := by
  have hdenotes : Denotes (source ++ []) name ↔
      ∃ behind, name = source ++ behind ∧ Denotes [] behind := denotes_append hstar
  simpa [denotes_nil] using hdenotes

theorem accepts_literal_iff {source : Text} (hstar : '*' ∉ source) (name : Text) :
    (literal source).accepts name = true ↔ Denotes source name := by
  rw [denotes_of_not_mem hstar, accepts, beq_iff_eq, eq_comm]

/-! ## Reading -/

/-- The pattern could be one of a class name: it is not empty, not too long, and
    has no blank and no control character. -/
structure IsAdmissible (source : Text) : Prop where
  ne_nil : source ≠ []
  byteLength_le : Text.byteLength source ≤ 256
  clean : ∀ c ∈ source, Text.isBlank c = false ∧ Text.isControl c = false

theorem isAdmissible_iff (source : Text) :
    IsAdmissible source ↔
      (source.isEmpty || maxBytes < Text.byteLength source || !isClean source) = false := by
  rw [Bool.or_eq_false_iff, Bool.or_eq_false_iff, List.isEmpty_eq_false_iff, decide_eq_false_iff_not,
    Nat.not_lt]
  simp only [isClean, Bool.not_eq_false', List.all_eq_true, Bool.not_eq_true', Bool.or_eq_false_iff]
  constructor
  · rintro ⟨hne, hbytes, hclean⟩
    exact ⟨⟨hne, hbytes⟩, hclean⟩
  · rintro ⟨⟨hne, hbytes⟩, hclean⟩
    exact ⟨hne, hbytes, hclean⟩

/-- What is read from an admissible pattern: without `*` the pattern itself, with `*`
    its parts, if they fit. -/
theorem compile?_eq_some_iff {source : Text} {fits : List Part → Bool} {p : NamePattern} :
    compile? source fits = some p ↔
      IsAdmissible source
        ∧ (('*' ∉ source ∧ p = literal source)
          ∨ ('*' ∈ source ∧ fits (partsOf source) = true
            ∧ p = wildcard source (partsOf source))) := by
  unfold compile?
  rw [isAdmissible_iff]
  have read : ∀ q : NamePattern, some q = some p ↔ p = q := fun q => by
    rw [Option.some.injEq]
    exact eq_comm
  cases source.isEmpty || maxBytes < Text.byteLength source || !isClean source with
  | true => simp
  | false =>
    by_cases hstar : '*' ∈ source
    · cases hfits : fits (partsOf source) with
      | true => simpa [hstar, hfits] using read (wildcard source (partsOf source))
      | false => simp [hstar, hfits]
    · simpa [hstar] using read (literal source)

/-- **A pattern matches what it says.**  Where a pattern is accepted, it matches
    exactly the names that can be had from it by putting text on one line in place
    of each maximal run of `*`; without `*` that is the pattern itself and nothing
    else.  A pattern that is empty, longer than 256 bytes, or not free of blank
    and control characters is rejected.  Any other pattern without `*` is accepted,
    and any other with `*` if its matcher fits, whatever does. -/
theorem compile?_accepts_iff (source : Text) (fits : List Part → Bool) :
    (∀ p, compile? source fits = some p → ∀ name,
      (p.accepts name = true ↔ Denotes source name)
        ∧ ('*' ∉ source → (p.accepts name = true ↔ name = source)))
    ∧ (¬ IsAdmissible source → compile? source fits = none)
    ∧ (IsAdmissible source → '*' ∉ source → compile? source fits = some (literal source))
    ∧ (IsAdmissible source → '*' ∈ source →
        ((compile? source fits).isSome = true ↔ fits (partsOf source) = true)) := by
  refine ⟨?_, ?_, ?_, ?_⟩
  · intro p hp name
    obtain ⟨hadmissible, hkind⟩ := compile?_eq_some_iff.mp hp
    have haccepts : p.accepts name = true ↔ Denotes source name := by
      rcases hkind with ⟨hstar, rfl⟩ | ⟨-, -, rfl⟩
      · exact accepts_literal_iff hstar name
      · exact accepts_wildcard_iff hadmissible.ne_nil name
    exact ⟨haccepts, fun hstar => haccepts.trans (denotes_of_not_mem hstar name)⟩
  · intro hadmissible
    rw [Option.eq_none_iff_forall_ne_some]
    intro p hp
    exact hadmissible (compile?_eq_some_iff.mp hp).1
  · intro hadmissible hstar
    exact compile?_eq_some_iff.mpr ⟨hadmissible, Or.inl ⟨hstar, rfl⟩⟩
  · intro hadmissible hstar
    rw [Option.isSome_iff_exists]
    constructor
    · rintro ⟨p, hp⟩
      obtain ⟨-, ⟨hno, -⟩ | ⟨-, hfits, -⟩⟩ := compile?_eq_some_iff.mp hp
      · exact absurd hstar hno
      · exact hfits
    · intro hfits
      exact ⟨_, compile?_eq_some_iff.mpr ⟨hadmissible, Or.inr ⟨hstar, hfits, rfl⟩⟩⟩

/-- A run of `*` between letters that mean more in other languages, and one at the end. -/
theorem compile?_accepts_iff_runs :
    ∃ p, compile? "w-[.**]+*".toList = some p
      ∧ p.accepts "w-[.5rem]+".toList = true ∧ Denotes "w-[.**]+*".toList "w-[.5rem]+".toList
      ∧ p.accepts "w-[15rem]+".toList = false ∧ ¬ Denotes "w-[.**]+*".toList "w-[15rem]+".toList := by
  have hp : compile? "w-[.**]+*".toList
      = some (wildcard "w-[.**]+*".toList (partsOf "w-[.**]+*".toList)) := by decide +kernel
  have hiff := (compile?_accepts_iff "w-[.**]+*".toList hasFewWildcards).1 _ hp
  have hin : (wildcard "w-[.**]+*".toList (partsOf "w-[.**]+*".toList)).accepts
      "w-[.5rem]+".toList = true := by decide +kernel
  have hout : (wildcard "w-[.**]+*".toList (partsOf "w-[.**]+*".toList)).accepts
      "w-[15rem]+".toList = false := by decide +kernel
  refine ⟨_, hp, hin, (hiff _).1.mp hin, hout, ?_⟩
  intro hdenotes
  rw [(hiff _).1.mpr hdenotes] at hout
  exact Bool.noConfusion hout

end ClassLint.NamePattern
