/-
  ClassLint.Proofs.Stylesheet.Nesting

  A stylesheet as a forest of statements and blocks, and what it defines, read
  off by recursion.  The scan of the written forest goes character by character
  with a stack of open blocks; it defines the same class names in the same
  order.

  What carries the proof is the state where an item may start: nothing is
  pending, and the innermost open block holds the selectors and the layer in
  force.  A forest read from such a state adds its own class names and leaves
  the open blocks as they were.
-/

import ClassLint.Proofs.Stylesheet.Code

namespace ClassLint.Stylesheet

/-! ## Forests -/

/-- What stands at the top of a stylesheet or inside a block. -/
inductive Forest where
  /-- No further item.  Some text may be left, as a declaration without a semicolon. -/
  | last (text : Text)
  /-- A statement up to its semicolon, then the rest. -/
  | statement (text : Text) (rest : Forest)
  /-- A prelude and what stands between its braces, then the rest. -/
  | block (prelude : Text) (body rest : Forest)
deriving Repr, Inhabited

/-- The character ends a prelude, a block or a statement. -/
def isSeparator (c : Char) : Bool := c == '{' || c == '}' || c == ';'

/-- The text is code without separators, as a prelude or a declaration is. -/
def isPlainText (lineComments : Bool) (t : Text) : Bool :=
  isCode lineComments t && t.all fun c => !isSeparator c

namespace Forest

/-- A forest as it is written. -/
def render : Forest → Text
  | last text => text
  | statement text rest => text ++ ';' :: render rest
  | block prelude body rest => prelude ++ '{' :: (render body ++ '}' :: render rest)

/-- All texts of the forest are code without separators. -/
def isPlain (lineComments : Bool) : Forest → Bool
  | last text => isPlainText lineComments text
  | statement text rest => isPlainText lineComments text && isPlain lineComments rest
  | block prelude body rest =>
    isPlainText lineComments prelude && isPlain lineComments body && isPlain lineComments rest

/-- The class names that a forest defines inside the selectors `parents`, in the
    order in which they are written, each with whether it lies in a layer. -/
def definitions (parents : List Text) (layered : Bool) : Forest → List (Text × Bool)
  | last _ => []
  | statement _ rest => definitions parents layered rest
  | block prelude body rest =>
    (match Text.trim prelude with
      | '@' :: rule => definitions parents (layered || "layer".toList.isPrefixOf rule) body
      | selectors =>
        let resolved := Selector.flatten selectors parents
        (resolved.flatMap Selector.classes).map (·, layered) ++ definitions resolved layered body)
    ++ definitions parents layered rest

/-- The forest without its statements, at every depth. -/
def rules : Forest → Forest
  | last _ => last []
  | statement _ rest => rules rest
  | block prelude body rest => block prelude (rules body) (rules rest)

/-! ## Statements -/

theorem definitions_rules (forest : Forest) (parents : List Text) (layered : Bool) :
    forest.rules.definitions parents layered = forest.definitions parents layered := by
  induction forest generalizing parents layered with
  | last text => rfl
  | statement text rest ih => exact ih parents layered
  | block prelude body rest ihbody ihrest => simp only [rules, definitions, ihbody, ihrest]

theorem isPlain_rules {lineComments : Bool} {forest : Forest}
    (h : forest.isPlain lineComments = true) : forest.rules.isPlain lineComments = true := by
  induction forest with
  | last text => rfl
  | statement text rest ih =>
    simp only [isPlain, Bool.and_eq_true] at h
    exact ih h.2
  | block prelude body rest ihbody ihrest =>
    simp only [rules, isPlain, Bool.and_eq_true] at h ⊢
    exact ⟨⟨h.1.1, ihbody h.1.2⟩, ihrest h.2⟩

/-! ## Cleaning -/

/-- A forest of code is code as it is written. -/
theorem isCode_render {lineComments : Bool} {forest : Forest}
    (h : forest.isPlain lineComments = true) : isCode lineComments forest.render = true := by
  induction forest with
  | last text =>
    simp only [isPlain, isPlainText, Bool.and_eq_true] at h
    exact h.1
  | statement text rest ih =>
    simp only [isPlain, isPlainText, Bool.and_eq_true] at h
    obtain ⟨⟨htext, -⟩, hrest⟩ := h
    rw [render, isCode_append_cons (by decide) (by decide) (by decide), htext, ih hrest]
    rfl
  | block prelude body rest ihbody ihrest =>
    simp only [isPlain, isPlainText, Bool.and_eq_true] at h
    obtain ⟨⟨⟨hprelude, -⟩, hbody⟩, hrest⟩ := h
    rw [render, isCode_append_cons (by decide) (by decide) (by decide), hprelude,
      isCode_append_cons (by decide) (by decide) (by decide), ihbody hbody, ihrest hrest]
    rfl

end Forest

/-! ## Class names of definitions -/

/-- Record definitions in order: all of them, and those in a layer once more apart. -/
def Classes.define (found : Classes) (definitions : List (Text × Bool)) : Classes where
  classes := found.classes.insertAll (definitions.map Prod.fst)
  layered := found.layered.insertAll ((definitions.filter Prod.snd).map Prod.fst)

namespace Classes

theorem define_append (found : Classes) (xs ys : List (Text × Bool)) :
    found.define (xs ++ ys) = (found.define xs).define ys := by
  simp [define, OrderedSet.insertAll]

theorem add_eq_define (found : Classes) (layered : Bool) (names : List Text) :
    found.add layered names = found.define (names.map (·, layered)) := by
  have hnames : (names.map (·, layered)).map Prod.fst = names := by
    rw [List.map_map]
    exact List.map_id names
  unfold add define
  rw [hnames]
  cases layered with
  | true =>
    have hall : (names.map (·, true)).filter Prod.snd = names.map (·, true) := by simp
    rw [hall, hnames]
    rfl
  | false =>
    have hnone : (names.map (·, false)).filter Prod.snd = [] := by simp
    rw [hnone]
    rfl

end Classes

/-! ## Scanning -/

theorem atRule?_eq_some_iff {prelude rule : Text} :
    atRule? prelude = some rule ↔ prelude = '@' :: rule := by
  cases prelude with
  | nil =>
    have hnone : atRule? [] = none := rfl
    simp [hnone]
  | cons c rest =>
    have hcons : atRule? (c :: rest) = if '@' == c then some rest else none := rfl
    rw [hcons]
    by_cases hc : c = '@'
    · simp [hc]
    · simp [hc, Ne.symm hc]

namespace ScanState

/-- Text without separators is kept until one comes. -/
theorem run_append_of_not_isSeparator {t : Text} (h : (t.all fun c => !isSeparator c) = true)
    (s : ScanState) (rest : Text) :
    s.run (t ++ rest) = { s with pending := t.reverse ++ s.pending }.run rest := by
  induction t generalizing s with
  | nil => rfl
  | cons c t ih =>
    simp only [List.all_cons, Bool.and_eq_true, Bool.not_eq_true', isSeparator,
      Bool.or_eq_false_iff, beq_eq_false_iff_ne] at h
    obtain ⟨⟨⟨hopen, hclose⟩, hsemicolon⟩, hrest⟩ := h
    have hstep : s.step c = .ok { s with pending := c :: s.pending } := by
      simp [step, hopen, hclose, hsemicolon]
    rw [List.cons_append, run, hstep]
    simp only [ih hrest, List.reverse_cons, List.append_assoc]
    rfl

/-- A statement is passed over. -/
theorem run_statement {text : Text} (h : (text.all fun c => !isSeparator c) = true)
    (s : ScanState) (rest : Text) :
    s.run (text ++ ';' :: rest) = { s with pending := [] }.run rest := by
  rw [run_append_of_not_isSeparator h]
  rfl

/-- A prelude opens its block. -/
theorem run_prelude {prelude : Text} (h : (prelude.all fun c => !isSeparator c) = true)
    (s : ScanState) (hstart : s.pending = []) (rest : Text) :
    s.run (prelude ++ '{' :: rest) = (s.openBlock (Text.trim prelude)).run rest := by
  have hpending : (prelude.reverse ++ s.pending).reverse = prelude := by simp [hstart]
  have hopen : s.run (prelude ++ '{' :: rest)
      = (s.openBlock (Text.trim (prelude.reverse ++ s.pending).reverse)).run rest := by
    rw [run_append_of_not_isSeparator h]
    rfl
  rw [hopen, hpending]

theorem run_close (found : Classes) (frame : Frame) (outer : List Frame) (pending rest : Text) :
    run ⟨found, frame :: outer, pending⟩ ('}' :: rest) = run ⟨found, outer, []⟩ rest := rfl

/-- What a block and its body define, told from the state in front of the block. -/
theorem define_openBlock (s : ScanState) (prelude : Text) (body : Forest) :
    let inside := s.openBlock (Text.trim prelude)
    inside.found.define (body.definitions inside.selectors inside.layered)
      = s.found.define ((Forest.block prelude body (.last [])).definitions s.selectors s.layered) := by
  intro inside
  have hfound : inside.found = s.found.define
      ((s.defined (Text.trim prelude)).map (·, s.layered)) := Classes.add_eq_define ..
  have hselectors : inside.selectors = (s.frame (Text.trim prelude)).selectors := rfl
  have hlayered : inside.layered = (s.frame (Text.trim prelude)).layered := rfl
  rw [hfound, hselectors, hlayered, ← Classes.define_append, Forest.definitions,
    Forest.definitions, List.append_nil]
  unfold defined frame
  cases hrule : atRule? (Text.trim prelude) with
  | some rule =>
    rw [atRule?_eq_some_iff.mp hrule]
    rfl
  | none =>
    dsimp only
    split
    · next rule hprelude =>
      rw [atRule?_eq_some_iff.mpr hprelude] at hrule
      exact absurd hrule (Option.some_ne_none rule)
    · rfl

/-- A forest adds what it defines inside the innermost open block, and leaves the
    open blocks as they were. -/
theorem run_render {lineComments : Bool} {forest : Forest}
    (hplain : forest.isPlain lineComments = true) (s : ScanState) (hstart : s.pending = [])
    (rest : Text) :
    ∃ pending, s.run (forest.render ++ rest)
      = run ⟨s.found.define (forest.definitions s.selectors s.layered), s.stack, pending⟩ rest := by
  induction forest generalizing s rest with
  | last text =>
    simp only [Forest.isPlain, isPlainText, Bool.and_eq_true] at hplain
    exact ⟨_, run_append_of_not_isSeparator hplain.2 s rest⟩
  | statement text after ih =>
    simp only [Forest.isPlain, isPlainText, Bool.and_eq_true] at hplain
    obtain ⟨⟨-, htext⟩, hafter⟩ := hplain
    have htext' : s.run ((Forest.statement text after).render ++ rest)
        = { s with pending := [] }.run (after.render ++ rest) := by
      rw [Forest.render, List.append_assoc, List.cons_append, run_statement htext]
    obtain ⟨pending, hrun⟩ := ih hafter { s with pending := [] } rfl rest
    exact ⟨pending, htext'.trans hrun⟩
  | block prelude body after ihbody ihafter =>
    simp only [Forest.isPlain, isPlainText, Bool.and_eq_true] at hplain
    obtain ⟨⟨⟨-, hprelude⟩, hbody⟩, hafter⟩ := hplain
    let inside := s.openBlock (Text.trim prelude)
    let closed : ScanState :=
      ⟨inside.found.define (body.definitions inside.selectors inside.layered), s.stack, []⟩
    have hopened : s.run ((Forest.block prelude body after).render ++ rest)
        = inside.run (body.render ++ '}' :: (after.render ++ rest)) := by
      rw [Forest.render, List.append_assoc, List.cons_append, List.append_assoc, List.cons_append,
        run_prelude hprelude s hstart]
    obtain ⟨left, hbodyRun⟩ := ihbody hbody inside rfl ('}' :: (after.render ++ rest))
    have hclosed : inside.run (body.render ++ '}' :: (after.render ++ rest))
        = closed.run (after.render ++ rest) := hbodyRun.trans (run_close ..)
    obtain ⟨pending, hafterRun⟩ := ihafter hafter closed rfl rest
    -- behind the closing brace the block around is in force again
    have hdefined : closed.found.define (after.definitions s.selectors s.layered)
        = s.found.define ((Forest.block prelude body after).definitions s.selectors s.layered) := by
      have hblock : closed.found = s.found.define
          ((Forest.block prelude body (.last [])).definitions s.selectors s.layered) :=
        define_openBlock s prelude body
      rw [hblock, ← Classes.define_append]
      simp only [Forest.definitions, List.append_nil]
    rw [← hdefined]
    exact ⟨pending, hopened.trans (hclosed.trans hafterRun)⟩

end ScanState

namespace Forest

/-! ## Stylesheets -/

theorem scan_render_of_isPlain {extension? : Option Text} {forest : Forest}
    (hplain : forest.isPlain (extension?.any lineCommentExtensions.contains) = true) :
    scan extension? forest.render
      = .ok (ScanState.start.found.define (forest.definitions [] false)) := by
  obtain ⟨pending, hrun⟩ := ScanState.run_render hplain .start rfl []
  have hrun' : ScanState.start.run forest.render
      = .ok ⟨ScanState.start.found.define (forest.definitions [] false), [], pending⟩ := by
    rw [List.append_nil] at hrun
    exact hrun
  unfold scan scanCleaned
  rw [clean_of_isCode (isCode_render hplain), hrun']
  rfl

/-- **A scan reads nested rules by recursion.**  For a forest of plain text, in any
    dialect, it succeeds and gives the class names that the recursion defines,
    in the order in which they are written: all of them, and apart from these the
    ones inside layers.  Statements make no difference to it, wherever they stand. -/
theorem scan_render (extension? : Option Text) (forest : Forest)
    (hplain : forest.isPlain (extension?.any lineCommentExtensions.contains) = true) :
    let defined := forest.definitions [] false
    scan extension? forest.render
      = .ok ⟨OrderedSet.ofList (defined.map Prod.fst),
          OrderedSet.ofList ((defined.filter Prod.snd).map Prod.fst)⟩
    ∧ scan extension? forest.rules.render = scan extension? forest.render := by
  intro defined
  have hscan := scan_render_of_isPlain hplain
  refine ⟨hscan, ?_⟩
  rw [hscan, scan_render_of_isPlain (isPlain_rules hplain), definitions_rules]

/-- A card with nested rules, and a button inside a layer. -/
def cardAndButton : Forest :=
  .block ".card ".toList
    (.statement " padding: .5rem".toList
      (.block " &__title, &.is-active ".toList (.last " color: red ".toList)
        (.block " @media print ".toList
          (.block " .icon:hover ".toList (.last []) (.last " ".toList)) (.last " ".toList))))
    (.block " @layer components ".toList
      (.block " .btn-primary ".toList (.statement " color: blue".toList (.last " ".toList))
        (.last " ".toList))
      (.last "\n".toList))

theorem scan_render_cardAndButton :
    cardAndButton.isPlain true = true
      ∧ ∃ found, scan (some "scss".toList) cardAndButton.render = .ok found
        ∧ found.classes.toList
          = ["card", "card__title", "is-active", "icon", "btn-primary"].map String.toList
        ∧ found.layered.toList = ["btn-primary".toList] := by
  have hplain : cardAndButton.isPlain
      ((some "scss".toList).any lineCommentExtensions.contains) = true := by decide +kernel
  have hscan := (scan_render (some "scss".toList) cardAndButton hplain).1
  exact ⟨by decide +kernel, _, hscan, by decide +kernel, by decide +kernel⟩

end Forest

end ClassLint.Stylesheet
