/-
  ClassLint.Proofs.Stylesheet.Escaping

  Class names written as selectors.  A name is written with a backslash before
  every character that could be taken for something else, and reading the name
  takes the backslashes away again.

  The steps in front of that reading know nothing of backslashes: a quote opens a
  string, a brace or semicolon ends a prelude, a comma outside brackets ends a
  selector, and `&` is replaced.  A name is given back exactly if it holds none of
  these; otherwise it is lost.
-/

import ClassLint.Proofs.Stylesheet.Names

namespace ClassLint.Stylesheet

/-! ## Writing -/

/-- The character is written with a backslash before it. -/
def isSpecial (c : Char) : Bool := c.toNat < 0x80 && !(c.isAlphanum || c == '_' || c == '-')

/-- A character of a class name as it is written. -/
def escapeChar (c : Char) : Text := if isSpecial c then ['\\', c] else [c]

/-- A class name as it is written in a selector. -/
def escape (name : Text) : Text := name.flatMap escapeChar

/-- A rule without declarations for a class name. -/
def ruleOf (name : Text) : Text := '.' :: escape name ++ " \x7b\x7d".toList

/-- The name is not empty, has neither blank nor control characters, and begins
    with neither a digit nor a hyphen. -/
def isSpellable : Text → Bool
  | [] => false
  | c :: rest =>
    !c.isDigit && c != '-' && (c :: rest).all fun c => !Text.isBlank c && !Text.isControl c

/-- Some comma of the text stands outside brackets. -/
def hasOuterComma (depth : Int) : Text → Bool
  | [] => false
  | c :: rest => (c == ',' && depth == 0) || hasOuterComma (Selector.depthAfter depth c) rest

/-- The character is one that no class name of a stylesheet survives. -/
def isLost (c : Char) : Bool := isQuote c || isSeparator c || c == '&'

/-- Reading gives the written name back. -/
def survives (name : Text) : Bool := !name.any isLost && !hasOuterComma 0 name

theorem isLost_eq_false_iff {c : Char} :
    isLost c = false ↔ isQuote c = false ∧ isSeparator c = false ∧ c ≠ '&' := by
  simp only [isLost, Bool.or_eq_false_iff, beq_eq_false_iff_ne, and_assoc]

theorem escape_cons (c : Char) (rest : Text) :
    escape (c :: rest) = escapeChar c ++ escape rest := List.flatMap_cons

theorem escape_append (a b : Text) : escape (a ++ b) = escape a ++ escape b := List.flatMap_append

theorem escapeChar_of_special {c : Char} (h : isSpecial c = true) : escapeChar c = ['\\', c] :=
  if_pos h

theorem escapeChar_of_not_special {c : Char} (h : isSpecial c = false) : escapeChar c = [c] :=
  if_neg (by simp [h])

theorem isInside_of_not_special {c : Char} (h : isSpecial c = false) :
    Selector.isInside c = true := by
  unfold Selector.isInside Text.isNameChar Selector.isWide
  by_cases hname : (c.isAlphanum || c == '_' || c == '-') = true
  · rw [hname, Bool.true_or]
  · have hwide : ¬c.toNat < 0x80 := fun hlt => by simp [isSpecial, hlt, hname] at h
    simp only [Nat.not_lt] at hwide
    simp [hwide]

theorem ne_of_not_special {c d : Char} (h : isSpecial c = false) (hd : isSpecial d = true) :
    c ≠ d := by
  rintro rfl
  exact absurd h (by simp [hd])

/-- A written character is one of the name or a backslash. -/
theorem mem_escape {c : Char} {name : Text} (h : c ∈ escape name) : c ∈ name ∨ c = '\\' := by
  obtain ⟨x, hx, hc⟩ := List.mem_flatMap.mp h
  unfold escapeChar at hc
  split at hc
  · rcases List.mem_cons.mp hc with hc | hc
    · exact Or.inr hc
    · exact Or.inl (List.mem_singleton.mp hc ▸ hx)
  · exact Or.inl (List.mem_singleton.mp hc ▸ hx)

theorem count_escape {c : Char} (hc : c ≠ '\\') (name : Text) :
    (escape name).count c = name.count c := by
  induction name with
  | nil => rfl
  | cons x rest ih =>
    have hchar : (escapeChar x).count c = if x == c then 1 else 0 := by
      unfold escapeChar
      split
      · rw [List.count_cons, List.count_singleton]
        simp [hc.symm]
      · rw [List.count_singleton]
    rw [escape_cons, List.count_append, ih, List.count_cons, hchar, Nat.add_comm]

/-! ## Cleaning -/

/-- A character that is neither a quote nor in front of a star is kept. -/
theorem cleanFrom_cons_of_not_isQuote {c : Char} (hquote : isQuote c = false) {t : Text}
    (hstar : t.head? ≠ some '*') (out : Text) :
    cleanFrom false out .code (c :: t) = cleanFrom false (c :: out) .code t := by
  have hquote' : (c == '"' || c == '\'') = false := hquote
  cases t with
  | nil => simp [cleanFrom, hquote']
  | cons d more =>
    have hd : d ≠ '*' := by simpa using hstar
    by_cases hslash : c = '/'
    · subst hslash
      simp [cleanFrom, hd]
    · simp [cleanFrom, hslash, hquote']

/-- A star is only ever written behind its own backslash. -/
theorem head?_escape_append (name : Text) {tail : Text} (htail : tail.head? ≠ some '*') :
    (escape name ++ tail).head? ≠ some '*' := by
  cases name with
  | nil => exact htail
  | cons c rest =>
    rw [escape_cons]
    cases hspecial : isSpecial c with
    | true =>
      rw [escapeChar_of_special hspecial]
      simp
    | false =>
      have hc : c ≠ '*' := ne_of_not_special hspecial (by decide)
      rw [escapeChar_of_not_special hspecial]
      simpa using hc

/-- Written characters open neither a comment nor, quotes apart, a string. -/
theorem cleanFrom_escape {name : Text} (hquote : ∀ c ∈ name, isQuote c = false) (out : Text)
    {tail : Text} (htail : tail.head? ≠ some '*') :
    cleanFrom false out .code (escape name ++ tail)
      = cleanFrom false ((escape name).reverse ++ out) .code tail := by
  induction name generalizing out with
  | nil => rfl
  | cons c rest ih =>
    obtain ⟨hc, hrest⟩ := List.forall_mem_cons.mp hquote
    have hhead := head?_escape_append rest htail
    rw [escape_cons, List.append_assoc]
    cases hspecial : isSpecial c with
    | true =>
      by_cases hstar : c = '*'
      · subst hstar
        have hpair : cleanFrom false out .code ('\\' :: '*' :: (escape rest ++ tail))
            = cleanFrom false ('*' :: '\\' :: out) .code (escape rest ++ tail) := by
          simp [cleanFrom]
        rw [escapeChar_of_special hspecial, List.cons_append, List.cons_append, List.nil_append,
          hpair, ih hrest]
        simp
      · rw [escapeChar_of_special hspecial, List.cons_append, List.cons_append, List.nil_append,
          cleanFrom_cons_of_not_isQuote (by decide) (by simpa using hstar),
          cleanFrom_cons_of_not_isQuote hc hhead, ih hrest]
        simp
    | false =>
      rw [escapeChar_of_not_special hspecial, List.cons_append, List.nil_append,
        cleanFrom_cons_of_not_isQuote hc hhead, ih hrest]
      simp

/-- A string that a quote opens does not end among written characters. -/
theorem cleanFrom_quoted_escape {quote : Char} (hquote : isQuote quote = true) (name out : Text)
    (tail : Text) :
    cleanFrom false out (.quoted quote false) (escape name ++ tail)
      = cleanFrom false out (.quoted quote false) tail := by
  have hspecialQuote : isSpecial quote = true := by
    simp only [isQuote, Bool.or_eq_true, beq_iff_eq] at hquote
    rcases hquote with rfl | rfl <;> decide
  induction name with
  | nil => rfl
  | cons c rest ih =>
    rw [escape_cons, List.append_assoc]
    cases hspecial : isSpecial c with
    | true =>
      -- the backslash takes the character with it, the closing quote too
      rw [escapeChar_of_special hspecial]
      simpa [cleanFrom] using ih
    | false =>
      have hbackslash : c ≠ '\\' := ne_of_not_special hspecial (by decide)
      have hc : c ≠ quote := ne_of_not_special hspecial hspecialQuote
      rw [escapeChar_of_not_special hspecial]
      simpa [cleanFrom, hbackslash, hc] using ih

theorem clean_ruleOf {name : Text} (hquote : ∀ c ∈ name, isQuote c = false) :
    clean false (ruleOf name) = ruleOf name := by
  have hdot : cleanFrom false [] .code ('.' :: (escape name ++ " \x7b\x7d".toList))
      = cleanFrom false ['.'] .code (escape name ++ " \x7b\x7d".toList) :=
    cleanFrom_cons_of_not_isQuote (by decide) (head?_escape_append name (by decide)) []
  rw [clean, ruleOf, List.cons_append, hdot, cleanFrom_escape hquote _ (by decide)]
  simp [cleanFrom]

/-- Behind the first quote of a name nothing of its rule is left. -/
theorem clean_ruleOf_quote {front : Text} (hfront : ∀ c ∈ front, isQuote c = false) {quote : Char}
    (hquote : isQuote quote = true) (back : Text) :
    clean false (ruleOf (front ++ quote :: back))
      = ('.' :: escape front ++ ['\\']) ++ [quote, quote] := by
  have hspecial : isSpecial quote = true := by
    simp only [isQuote, Bool.or_eq_true, beq_iff_eq] at hquote
    rcases hquote with rfl | rfl <;> decide
  have hstar : quote ≠ '*' := by
    rintro rfl
    exact absurd hquote (by decide)
  have hopen : ∀ out rest : Text, cleanFrom false out .code (quote :: rest)
      = cleanFrom false out (.quoted quote false) rest := by
    intro out rest
    have hslash : quote ≠ '/' := by
      rintro rfl
      exact absurd hquote (by decide)
    have hquote' : (quote == '"' || quote == '\'') = true := hquote
    simp [cleanFrom, hslash, hquote']
  have hend : ∀ out : Text, cleanFrom false out (.quoted quote false) " \x7b\x7d".toList
      = (quote :: quote :: out).reverse := by
    intro out
    simp only [isQuote, Bool.or_eq_true, beq_iff_eq] at hquote
    rcases hquote with rfl | rfl <;> simp [cleanFrom]
  have hrule : ruleOf (front ++ quote :: back)
      = '.' :: (escape front ++ '\\' :: quote :: (escape back ++ " \x7b\x7d".toList)) := by
    rw [ruleOf, escape_append, escape_cons, escapeChar_of_special hspecial]
    simp
  rw [clean, hrule,
    cleanFrom_cons_of_not_isQuote (by decide) (head?_escape_append front (by simp)) [],
    cleanFrom_escape hfront _ (by simp),
    cleanFrom_cons_of_not_isQuote (by decide) (by simpa using hstar), hopen,
    cleanFrom_quoted_escape hquote, hend]
  simp

/-! ## Reading -/

/-- A written name is continued to its end. -/
theorem continued_escape {name : Text} (hline : '\n' ∉ name) :
    Selector.continued (escape name) = (name, (escape name).length) := by
  induction name with
  | nil => rfl
  | cons c rest ih =>
    have hc : c ≠ '\n' := fun hc => hline (hc ▸ List.mem_cons_self)
    have hrest := ih fun hmem => hline (List.mem_cons_of_mem c hmem)
    rw [escape_cons]
    cases hspecial : isSpecial c with
    | true =>
      rw [escapeChar_of_special hspecial]
      simp [Selector.continued, hc, hrest]
    | false =>
      have hbackslash : c ≠ '\\' := ne_of_not_special hspecial (by decide)
      rw [escapeChar_of_not_special hspecial]
      simp [Selector.continued, hbackslash, isInside_of_not_special hspecial, hrest]

/-- A spellable name is read back from behind its dot. -/
theorem name?_escape {name : Text} (h : isSpellable name = true) :
    Selector.name? (escape name) = some (name, (escape name).length) := by
  cases name with
  | nil => exact absurd h (by decide)
  | cons c rest =>
    simp only [isSpellable, Bool.and_eq_true, Bool.not_eq_true', bne_iff_ne] at h
    obtain ⟨⟨hdigit, hhyphen⟩, hall⟩ := h
    have hline : '\n' ∉ c :: rest := by
      intro hmem
      have hblank := List.all_eq_true.mp hall '\n' hmem
      exact absurd hblank (by decide)
    have hc : c ≠ '\n' := fun hc => hline (hc ▸ List.mem_cons_self)
    have hrest := continued_escape fun hmem => hline (List.mem_cons_of_mem c hmem)
    rw [escape_cons]
    cases hspecial : isSpecial c with
    | true =>
      rw [escapeChar_of_special hspecial]
      simp [Selector.name?, Selector.started?, hc, hrest]
    | false =>
      have hbackslash : c ≠ '\\' := ne_of_not_special hspecial (by decide)
      have hstart : Selector.isStart c = true := by
        have hinside := isInside_of_not_special hspecial
        simp only [Selector.isInside, Text.isNameChar, Char.isAlphanum, hdigit, Bool.or_false,
          Bool.or_eq_true, beq_iff_eq, hhyphen, or_false] at hinside
        simp only [Selector.isStart, Bool.or_eq_true, beq_iff_eq]
        exact hinside
      rw [escapeChar_of_not_special hspecial]
      simp [Selector.name?, Selector.started?, hhyphen, hbackslash, hstart, hrest]

theorem classesFrom_of_length_le {skip : Nat} {t : Text} (h : t.length ≤ skip) :
    Selector.classesFrom skip t = [] := by
  induction t generalizing skip with
  | nil => rfl
  | cons c rest ih =>
    cases skip with
    | zero => exact absurd h (by simp)
    | succ n => exact ih (Nat.le_of_succ_le_succ h)

theorem classes_escape {name : Text} (h : isSpellable name = true) :
    Selector.classes ('.' :: escape name) = [name] := by
  simp only [Selector.classes, Selector.classesFrom, if_true]
  rw [name?_escape h]
  simp only
  rw [classesFrom_of_length_le (Nat.le_refl _)]

/-! ## Selectors of a rule -/

theorem dropWhile_of_not_isBlank {t : Text} (h : ∀ c ∈ t, Text.isBlank c = false) :
    t.dropWhile Text.isBlank = t := by
  cases t with
  | nil => rfl
  | cons c rest => rw [List.dropWhile_cons, h c List.mem_cons_self, if_neg Bool.false_ne_true]

theorem trim_of_not_isBlank {t : Text} (h : ∀ c ∈ t, Text.isBlank c = false) :
    Text.trim t = t := by
  rw [Text.trim, dropWhile_of_not_isBlank h,
    dropWhile_of_not_isBlank fun c hc => h c (List.mem_reverse.mp hc), List.reverse_reverse]

theorem trim_append_blank {c d : Char} {t : Text} (h : ∀ x ∈ c :: t, Text.isBlank x = false)
    (hd : Text.isBlank d = true) : Text.trim (c :: t ++ [d]) = c :: t := by
  have hfront : (c :: t ++ [d]).dropWhile Text.isBlank = c :: t ++ [d] := by
    rw [List.cons_append, List.dropWhile_cons, h c List.mem_cons_self, if_neg Bool.false_ne_true]
  have hback : (d :: (c :: t).reverse).dropWhile Text.isBlank = (c :: t).reverse := by
    rw [List.dropWhile_cons, hd, if_pos rfl]
    exact dropWhile_of_not_isBlank fun x hx => h x (List.mem_reverse.mp hx)
  rw [Text.trim, hfront, List.reverse_append, List.reverse_singleton, List.singleton_append, hback,
    List.reverse_reverse]

theorem substitute_nil_sublist (c : Char) (t : Text) : (Text.substitute c [] t).Sublist t := by
  induction t with
  | nil => exact List.Sublist.refl []
  | cons d rest ih =>
    rw [Text.substitute, List.flatMap_cons]
    split
    · exact ih.cons d
    · exact ih.cons_cons d

theorem substitute_of_not_mem {c : Char} {value t : Text} (h : c ∉ t) :
    Text.substitute c value t = t := by
  induction t with
  | nil => rfl
  | cons d rest ih =>
    have hd : ¬(d == c) = true := fun hd => h (eq_of_beq hd ▸ List.mem_cons_self)
    have hrest := ih fun hmem => h (List.mem_cons_of_mem d hmem)
    rw [Text.substitute, List.flatMap_cons, if_neg hd]
    exact congrArg (d :: ·) hrest

/-! ## Commas -/

theorem hasOuterComma_escape (depth : Int) (name : Text) :
    hasOuterComma depth (escape name) = hasOuterComma depth name := by
  induction name generalizing depth with
  | nil => rfl
  | cons c rest ih =>
    rw [escape_cons]
    cases hspecial : isSpecial c with
    | true =>
      rw [escapeChar_of_special hspecial]
      simp [hasOuterComma, Selector.depthAfter, ih]
    | false =>
      rw [escapeChar_of_not_special hspecial]
      simp [hasOuterComma, ih]

theorem splitTopLevel_of_not_hasOuterComma {depth : Int} {t : Text}
    (h : hasOuterComma depth t = false) : Selector.splitTopLevel depth t = [t] := by
  induction t generalizing depth with
  | nil => rfl
  | cons c rest ih =>
    simp only [hasOuterComma, Bool.or_eq_false_iff, Bool.and_eq_false_iff, beq_eq_false_iff_ne] at h
    obtain ⟨hcomma, hrest⟩ := h
    have hno : ¬(c = ',' ∧ depth = 0) := fun ⟨hc, hd⟩ => hcomma.elim (· hc) (· hd)
    rw [Selector.splitTopLevel, if_neg hno, ih hrest]
    rfl

/-- A piece has fewer commas than a text that is split at one. -/
theorem count_comma_lt {depth : Int} {t piece : Text} (h : hasOuterComma depth t = true)
    (hpiece : piece ∈ Selector.splitTopLevel depth t) : piece.count ',' < t.count ',' := by
  induction t generalizing depth piece with
  | nil => exact absurd h (by simp [hasOuterComma])
  | cons c rest ih =>
    unfold Selector.splitTopLevel at hpiece
    split at hpiece
    · next hcomma =>
      -- the comma itself is in no piece
      rw [hcomma.1, List.count_cons_self]
      rcases List.mem_cons.mp hpiece with rfl | hpiece
      · simp
      · have hle := (Selector.sublist_of_mem_splitTopLevel hpiece).count_le ','
        omega
    · next hno =>
      have hrest : hasOuterComma (Selector.depthAfter depth c) rest = true := by
        have hc : (c == ',' && depth == 0) = false := by
          rw [Bool.and_eq_false_iff, beq_eq_false_iff_ne, beq_eq_false_iff_ne]
          exact Decidable.not_and_iff_not_or_not.mp hno
        rwa [hasOuterComma, hc, Bool.false_or] at h
      obtain ⟨first, others, hpieces⟩ := List.exists_cons_of_ne_nil
        (Selector.splitTopLevel_ne_nil (Selector.depthAfter depth c) rest)
      rw [hpieces, Text.extendFirst] at hpiece
      rcases List.mem_cons.mp hpiece with rfl | hpiece
      · have hlt := ih hrest (hpieces ▸ List.mem_cons_self)
        rw [List.count_cons, List.count_cons]
        omega
      · have hlt := ih hrest (hpieces ▸ List.mem_cons_of_mem first hpiece)
        rw [List.count_cons]
        omega

/-! ## Rules -/

/-- The dialect of plain stylesheets. -/
def plain : Option Text := some "css".toList

theorem lineComments_plain : plain.any lineCommentExtensions.contains = false := by decide

section

variable {name : Text}

theorem isBlank_of_isSpellable (h : isSpellable name = true) :
    ∀ c ∈ '.' :: escape name, Text.isBlank c = false := by
  intro c hc
  rcases List.mem_cons.mp hc with rfl | hc
  · decide
  · rcases mem_escape hc with hc | rfl
    · cases name with
      | nil => exact absurd hc List.not_mem_nil
      | cons x rest =>
        simp only [isSpellable, Bool.and_eq_true] at h
        have hchar := List.all_eq_true.mp h.2 c hc
        simp only [Bool.and_eq_true, Bool.not_eq_true'] at hchar
        exact hchar.1
    · decide

/-- Without quotes and separators the rule opens and closes one block. -/
theorem scan_ruleOf (h : isSpellable name = true) (hquote : ∀ c ∈ name, isQuote c = false)
    (hseparator : ∀ c ∈ name, isSeparator c = false) :
    scan plain (ruleOf name) = .ok ⟨OrderedSet.ofList
      ((Selector.flatten ('.' :: escape name) []).flatMap Selector.classes), ∅⟩ := by
  have hprelude : (('.' :: escape name ++ [' ']).all fun c => !isSeparator c) = true := by
    rw [List.all_eq_true]
    intro c hc
    rw [List.cons_append, List.mem_cons, List.mem_append, List.mem_singleton] at hc
    rcases hc with rfl | hc | rfl
    · decide
    · rcases mem_escape hc with hc | rfl
      · rw [hseparator c hc]
        rfl
      · decide
    · decide
  have htrim : Text.trim ('.' :: escape name ++ [' ']) = '.' :: escape name :=
    trim_append_blank (isBlank_of_isSpellable h) (by decide)
  have hrule : ruleOf name = ('.' :: escape name ++ [' ']) ++ '{' :: ['}'] := by
    simp [ruleOf]
  have hrun : ScanState.start.run (ruleOf name)
      = .ok ⟨(ScanState.start.openBlock ('.' :: escape name)).found, [], []⟩ := by
    rw [hrule, ScanState.run_prelude hprelude .start rfl, htrim]
    rfl
  unfold scan scanCleaned
  rw [lineComments_plain, clean_ruleOf hquote, hrun]
  rfl

/-- A name of a rule is read inside a piece between outer commas. -/
theorem count_comma_lt_of_mem (hcomma : hasOuterComma 0 name = true) {found : Text}
    (hfound : found ∈ (Selector.flatten ('.' :: escape name) []).flatMap Selector.classes) :
    found.count ',' < name.count ',' := by
  obtain ⟨selector, hselector, hfound⟩ := List.mem_flatMap.mp hfound
  obtain ⟨part, hpart, rfl⟩ := List.mem_map.mp hselector
  obtain ⟨piece, hpiece, rfl⟩ := List.mem_map.mp (List.mem_filter.mp hpart).1
  have hsublist : found.Sublist piece :=
    (Selector.sublist_of_mem_classesFrom hfound).trans
      ((substitute_nil_sublist '&' _).trans (Text.trim_sublist piece))
  have houter : hasOuterComma 0 ('.' :: escape name) = true := by
    simp only [hasOuterComma, Selector.depthAfter]
    rw [← hasOuterComma_escape 0 name] at hcomma
    simpa using hcomma
  calc found.count ',' ≤ piece.count ',' := hsublist.count_le ','
    _ < ('.' :: escape name).count ',' := count_comma_lt houter hpiece
    _ = name.count ',' := by rw [List.count_cons, count_escape (by decide)]; rfl

/-- Of a name with a quote the rule keeps nothing behind the quote. -/
theorem not_mem_of_isQuote (hquote : name.any isQuote = true) {found : Classes}
    (hscan : scan plain (ruleOf name) = .ok found) : name ∉ found.classes.toList := by
  obtain ⟨quote, hfirst⟩ := Option.isSome_iff_exists.mp (List.find?_isSome.mpr
    (List.any_eq_true.mp hquote))
  obtain ⟨hisQuote, front, back, rfl, hfront⟩ := List.find?_eq_some_iff_append.mp hfirst
  have hfront' : ∀ c ∈ front, isQuote c = false := fun c hc => by simpa using hfront c hc
  have hne : ∀ c, isQuote c = false → quote ≠ c := by
    rintro c hc rfl
    exact absurd hc (by simp [hisQuote])
  -- up to the quote it has not been read, and behind it no block opens
  have hread : quote ∉ '.' :: escape front ++ ['\\'] := by
    rw [List.cons_append, List.mem_cons, List.mem_append, List.mem_singleton]
    rintro (hdot | hmem | hbackslash)
    · exact hne '.' (by decide) hdot
    · rcases mem_escape hmem with hmem | hbackslash
      · exact hne quote (hfront' quote hmem) rfl
      · exact hne '\\' (by decide) hbackslash
    · exact hne '\\' (by decide) hbackslash
  have hopen : '{' ∉ [quote, quote] := by
    simpa using (hne '{' (by decide)).symm
  have hblank : quote ≠ ' ' := hne ' ' (by decide)
  unfold scan at hscan
  rw [lineComments_plain, clean_ruleOf_quote hfront' hisQuote back] at hscan
  obtain ⟨final, hrun, rfl⟩ := scanCleaned_eq_ok hscan
  obtain ⟨middle, hmiddle, hrest⟩ := ScanState.run_append_eq_ok hrun
  have hlacks : middle.Lacks quote := (ScanState.lacks_start quote).run hblank
    (fun hpending => absurd hpending List.not_mem_nil) (fun hmem => absurd hmem hread) hmiddle
  have hfinal : final.Lacks quote := hlacks.run_of_not_mem hblank hopen hrest
  exact fun hname => hfinal.found _ hname (List.mem_append_right _ List.mem_cons_self)

/-- A name without `&` and without outer commas is one selector. -/
theorem flatten_escape (h : isSpellable name = true) (hamp : '&' ∉ name)
    (hcomma : hasOuterComma 0 name = false) :
    Selector.flatten ('.' :: escape name) [] = ['.' :: escape name] := by
  have hsplit : Selector.splitTopLevel 0 ('.' :: escape name) = ['.' :: escape name] := by
    refine splitTopLevel_of_not_hasOuterComma ?_
    rw [← hasOuterComma_escape 0 name] at hcomma
    simpa [hasOuterComma, Selector.depthAfter] using hcomma
  have hparts : Selector.parts ('.' :: escape name) = ['.' :: escape name] := by
    rw [Selector.parts, hsplit, List.map_singleton,
      trim_of_not_isBlank (isBlank_of_isSpellable h)]
    rfl
  have hwritten : '&' ∉ '.' :: escape name := by
    intro hmem
    rcases List.mem_cons.mp hmem with hdot | hmem
    · exact absurd hdot (by decide)
    · rcases mem_escape hmem with hmem | hbackslash
      · exact hamp hmem
      · exact absurd hbackslash (by decide)
  rw [Selector.flatten, hparts, List.isEmpty_nil, if_pos rfl, List.map_singleton,
    substitute_of_not_mem hwritten]

end

/-- **A written name is read back exactly if no step takes it apart.**  A spellable
    name with none of the characters that open a string, end a prelude or stand for
    a parent, and without a comma outside brackets, is the one class name of its
    rule.  Any other is not among the names of its rule, if that can be scanned. -/
theorem ruleOf_reads_back {name : Text} (h : isSpellable name = true) :
    (survives name = true →
        scan plain (ruleOf name) = .ok ⟨OrderedSet.ofList [name], ∅⟩)
      ∧ (survives name = false → ∀ found, scan plain (ruleOf name) = .ok found →
        name ∉ found.classes.toList) := by
  constructor
  · intro hsurvives
    simp only [survives, Bool.and_eq_true, Bool.not_eq_true', List.any_eq_false,
      Bool.not_eq_true, isLost_eq_false_iff] at hsurvives
    obtain ⟨hkept, hcomma⟩ := hsurvives
    rw [scan_ruleOf h (fun c hc => (hkept c hc).1) (fun c hc => (hkept c hc).2.1),
      flatten_escape h (fun hamp => (hkept '&' hamp).2.2 rfl) hcomma, List.flatMap_singleton,
      classes_escape h]
  · intro hlost found hscan hname
    by_cases hquote : name.any isQuote = true
    · exact not_mem_of_isQuote hquote hscan hname
    · by_cases hnever : ∃ c ∈ name, isSeparator c = true ∨ c = '&'
      · obtain ⟨c, hc, hkind⟩ := hnever
        exact not_mem_of_isSeparator hkind hscan hname hc
      · -- what is left is a comma outside brackets
        have hkept : ∀ c ∈ name, isQuote c = false ∧ isSeparator c = false ∧ c ≠ '&' := by
          intro c hc
          refine ⟨?_, ?_, ?_⟩
          · exact Bool.eq_false_iff.mpr fun hq => hquote (List.any_eq_true.mpr ⟨c, hc, hq⟩)
          · exact Bool.eq_false_iff.mpr fun hs => hnever ⟨c, hc, Or.inl hs⟩
          · exact fun hamp => hnever ⟨c, hc, Or.inr hamp⟩
        have hany : name.any isLost = false := by
          rw [List.any_eq_false]
          intro c hc
          rw [Bool.not_eq_true, isLost_eq_false_iff]
          exact hkept c hc
        have hcomma : hasOuterComma 0 name = true := by simpa [survives, hany] using hlost
        rw [scan_ruleOf h (fun c hc => (hkept c hc).1) (fun c hc => (hkept c hc).2.1)] at hscan
        obtain rfl := Except.ok.inj hscan
        exact absurd (count_comma_lt_of_mem hcomma ((OrderedSet.mem_ofList _ _).mp hname))
          (Nat.lt_irrefl _)

/-- A utility behind a variant, whose commas stand inside brackets. -/
def bracketed : Text := "md:w-[calc(min(1px,2px)+1px)]/2".toList

theorem ruleOf_reads_back_bracketed :
    ruleOf bracketed = ".md\\:w-\\[calc\\(min\\(1px\\,2px\\)\\+1px\\)\\]\\/2 \x7b\x7d".toList
      ∧ isSpellable bracketed = true
      ∧ scan plain (ruleOf bracketed) = .ok ⟨OrderedSet.ofList [bracketed], ∅⟩ :=
  ⟨by decide +kernel, by decide +kernel,
    (ruleOf_reads_back (by decide +kernel)).1 (by decide +kernel)⟩

/-- Of a name with a comma the rule gives the part in front of the comma. -/
theorem ruleOf_comma_ne :
    isSpellable "a,b".toList = true ∧ ruleOf "a,b".toList = ".a\\,b \x7b\x7d".toList
      ∧ ∃ found, scan plain (ruleOf "a,b".toList) = .ok found
        ∧ found.classes.toList = ["a".toList]
        ∧ found.classes.toList ≠ ["a,b".toList] := by
  refine ⟨by decide, by decide, _, rfl, ?_, ?_⟩ <;> decide +kernel

end ClassLint.Stylesheet
