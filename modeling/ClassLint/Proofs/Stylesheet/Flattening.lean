/-
  ClassLint.Proofs.Stylesheet.Flattening

  The selectors of nested rules at any point of a scan.  A text that is read so far
  leaves some blocks open, and each of them has its frame on the stack: the frame
  has as many others on top of it as blocks are open inside its own, and below it
  is the stack that was there when the block began.

  So what a block's frame holds can be told from its prelude and the frame around
  it, long after it was opened.  No selector has an `&` in it, and inside a block
  with selectors a rule has as many as its prelude has, times those around it.
-/

import Mathlib.Data.List.Induction
import ClassLint.Proofs.Stylesheet.Braces
import ClassLint.Proofs.Stylesheet.Commas
import ClassLint.Proofs.Stylesheet.Enclosure

namespace ClassLint.Stylesheet

/-! ## Open blocks -/

/-- A block of a text: what stands in front of its prelude, the prelude, and what
    has been read behind its opening brace. -/
structure Block where
  before : Text
  prelude : Text
  inside : Text
deriving DecidableEq, Repr, Inhabited

namespace Block

/-- The text leaves the block open: the prelude goes back to a separator or to the
    beginning, and no brace closes the block. -/
structure IsOpenIn (b : Block) (t : Text) : Prop where
  reads : t = b.before ++ (b.prelude ++ '{' :: b.inside)
  starts : b.before.getLast?.all isSeparator = true
  plain : (b.prelude.all fun c => !isSeparator c) = true
  unclosed : Text.NeverOvercloses '{' '}' 0 b.inside

/-- The number of blocks that are open inside. -/
def depth (b : Block) : Nat := b.inside.count '{' - b.inside.count '}'

/-- The block with one character more inside. -/
def concat (b : Block) (c : Char) : Block := { b with inside := b.inside ++ [c] }

variable {b : Block} {t : Text} {c : Char}

theorem IsOpenIn.depth_add (h : b.IsOpenIn t) :
    b.depth + b.inside.count '}' = b.inside.count '{' := by
  have hle := h.unclosed b.inside (List.prefix_refl _)
  unfold depth
  omega

/-- A block stays open unless the next character closes it, and then there are as
    many blocks open inside as that character leaves. -/
theorem IsOpenIn.concat (h : b.IsOpenIn t) {depth : Nat}
    (hdepth : depth + [c].count '}' = b.depth + [c].count '{') :
    (b.concat c).IsOpenIn (t ++ [c]) ∧ (b.concat c).depth = depth := by
  have hb := h.depth_add
  have hopening : (b.inside ++ [c]).count '{' = b.inside.count '{' + [c].count '{' :=
    List.count_append
  have hclosing : (b.inside ++ [c]).count '}' = b.inside.count '}' + [c].count '}' :=
    List.count_append
  refine ⟨⟨?_, h.starts, h.plain, ?_⟩, ?_⟩
  · rw [h.reads]
    simp [Block.concat]
  · exact Text.neverOvercloses_concat.mpr ⟨h.unclosed, by omega⟩
  · have hconcat : (b.concat c).depth
        = (b.inside ++ [c]).count '{' - (b.inside ++ [c]).count '}' := rfl
    omega

/-- The text behind the last separator. -/
theorem exists_prelude (t : Text) :
    ∃ before prelude, t = before ++ prelude ∧ before.getLast?.all isSeparator = true
      ∧ (prelude.all fun c => !isSeparator c) = true := by
  induction t using List.reverseRecOn with
  | nil => exact ⟨[], [], rfl, rfl, rfl⟩
  | append_singleton t c ih =>
    cases hc : isSeparator c with
    | true => exact ⟨t ++ [c], [], by simp, by simp [hc], rfl⟩
    | false =>
      obtain ⟨before, prelude, rfl, hstarts, hplain⟩ := ih
      exact ⟨before, prelude ++ [c], by simp, hstarts, by simp [hplain, hc]⟩

/-- A text leaves a block open at every depth below the number of its braces in
    excess. -/
theorem exists_isOpenIn {depth : Nat} (hcloses : Text.NeverOvercloses '{' '}' 0 t)
    (hdepth : depth + t.count '}' < t.count '{') : ∃ b : Block, b.IsOpenIn t ∧ b.depth = depth := by
  -- from the end: unless the last character opens the block itself, the block is open
  -- in front of it, at the depth that the character changes to the one asked for
  induction t using List.reverseRecOn generalizing depth with
  | nil => exact absurd hdepth (Nat.not_lt_zero _)
  | append_singleton t c ih =>
    rw [List.count_append, List.count_append] at hdepth
    have hcloses' := (Text.neverOvercloses_concat.mp hcloses).1
    by_cases hopen : c = '{'
    · subst hopen
      cases depth with
      | zero =>
        obtain ⟨before, prelude, rfl, hstarts, hplain⟩ := exists_prelude t
        exact ⟨⟨before, prelude, []⟩, ⟨by simp, hstarts, hplain, Text.neverOvercloses_nil⟩, rfl⟩
      | succ d =>
        have hopening : ['{'].count '{' = 1 := rfl
        have hclosing : ['{'].count '}' = 0 := rfl
        obtain ⟨b, hb, rfl⟩ := ih hcloses' (show d + t.count '}' < t.count '{' by omega)
        exact ⟨b.concat '{', hb.concat rfl⟩
    · have hopening : [c].count '{' = 0 := by simp [hopen]
      obtain ⟨b, hb, hd⟩ := ih hcloses'
        (show depth + [c].count '}' + t.count '}' < t.count '{' by omega)
      exact ⟨b.concat c, hb.concat (by rw [hd, hopening, Nat.add_zero])⟩

end Block

/-! ## Frames -/

namespace ScanState

/-- A character leaves the frames below the innermost ones as they are, unless it
    closes more than these. -/
theorem step_keeps {s next : ScanState} {c : Char} {top base : List Frame}
    (hstack : s.stack = top ++ base) (hclose : c = '}' → top ≠ [])
    (hstep : s.step c = .ok next) :
    ∃ top', next.stack = top' ++ base
      ∧ top'.length + [c].count '}' = top.length + [c].count '{' := by
  rcases step_cases s c with ⟨rfl, h⟩ | ⟨-, -, h⟩ | ⟨rfl, frame, outer, houter, h⟩ | ⟨rfl, h⟩
    | ⟨⟨hopen, hclose, -⟩, h⟩ <;> rw [h] at hstep <;> cases hstep
  · refine ⟨s.frame (Text.trim s.pending.reverse) :: top, ?_, rfl⟩
    rw [List.cons_append, ← hstack]
    rfl
  · -- the frame that is closed is one of the innermost ones
    obtain ⟨innermost, top, rfl⟩ := List.exists_cons_of_ne_nil (hclose rfl)
    rw [hstack, List.cons_append] at houter
    obtain ⟨-, rfl⟩ := List.cons.inj houter
    exact ⟨top, rfl, rfl⟩
  · exact ⟨top, hstack, rfl⟩
  · exact ⟨top, hstack, by simp [hopen, hclose]⟩

/-- So does a text that closes no more than these and what it opens itself. -/
theorem run_keeps {s final : ScanState} {t : Text} {top base : List Frame}
    (hstack : s.stack = top ++ base) (hcloses : Text.NeverOvercloses '{' '}' top.length t)
    (hrun : s.run t = .ok final) :
    ∃ top', final.stack = top' ++ base ∧ top'.length + t.count '}' = top.length + t.count '{' := by
  induction t generalizing s top with
  | nil =>
    cases hrun
    exact ⟨top, hstack, rfl⟩
  | cons c rest ih =>
    -- where the brace has nothing of `top` to close, the text closes too much with it
    have hclose : c = '}' → top ≠ [] := by
      rintro rfl rfl
      exact Text.not_neverOvercloses_close (by decide) rest hcloses
    unfold run at hrun
    split at hrun
    · next next hstep =>
      obtain ⟨middle, hmiddle, hdepth⟩ := step_keeps hstack hclose hstep
      obtain ⟨top', hfinal, hcount⟩ := ih hmiddle ((Text.neverOvercloses_cons hdepth).mp hcloses) hrun
      refine ⟨top', hfinal, ?_⟩
      rw [Text.count_cons_add c '}', Text.count_cons_add c '{']
      omega
    · exact absurd hrun nofun

/-- A separator leaves nothing pending. -/
theorem pending_step {s next : ScanState} {c : Char} (hc : isSeparator c = true)
    (hstep : s.step c = .ok next) : next.pending = [] := by
  rcases step_eq_ok hstep with ⟨-, rfl⟩ | ⟨frame, outer, -, rfl⟩ | rfl
    | ⟨⟨hopen, hclose, hsemicolon⟩, -⟩
  · rfl
  · rfl
  · rfl
  · exact absurd hc (by simp [isSeparator, hopen, hclose, hsemicolon])

/-- So nothing is pending where a prelude begins. -/
theorem pending_eq_nil {t : Text} {s : ScanState} (hrun : start.run t = .ok s)
    (hstarts : t.getLast?.all isSeparator = true) : s.pending = [] := by
  rcases List.eq_nil_or_concat' t with rfl | ⟨init, c, rfl⟩
  · cases hrun
    rfl
  · have hc : isSeparator c = true := by simpa using hstarts
    obtain ⟨middle, -, hlast⟩ := run_append_eq_ok hrun
    unfold run at hlast
    split at hlast
    · next next hstep =>
      cases hlast
      exact pending_step hc hstep
    · exact absurd hlast nofun

/-- Around a block the innermost frame holds the selectors in force. -/
theorem selectors_eq_of_stack {s : ScanState} {frame : Frame} (h : s.stack[0]? = some frame) :
    s.selectors = frame.selectors := by
  unfold selectors
  split
  · next hstack =>
    rw [hstack] at h
    exact absurd h nofun
  · next innermost outer hstack =>
    rw [hstack] at h
    rw [Option.some.inj h]

/-- A rule's frame holds the selectors of its prelude inside those in force. -/
theorem selectors_frame {s : ScanState} {prelude : Text} (h : ¬['@'] <+: prelude) :
    (s.frame prelude).selectors = Selector.flatten prelude s.selectors := by
  have hrule : atRule? prelude = none := by
    rw [Option.eq_none_iff_forall_ne_some]
    intro rule hrule
    exact h ⟨rule, (atRule?_eq_some_iff.mp hrule).symm⟩
  rw [frame, hrule]

end ScanState

/-- An open block's frame was made in the state in front of the block, and it lies on
    the stack of that state still, below the frames of the blocks inside. -/
theorem Block.IsOpenIn.drop_stack {b : Block} {t : Text} {s : ScanState} (h : b.IsOpenIn t)
    (hrun : ScanState.start.run t = .ok s) :
    ∃ front, ScanState.start.run b.before = .ok front
      ∧ s.stack.drop b.depth = front.frame (Text.trim b.prelude) :: front.stack := by
  rw [h.reads] at hrun
  obtain ⟨front, hfront, hblock⟩ := ScanState.run_append_eq_ok hrun
  rw [ScanState.run_prelude h.plain front (ScanState.pending_eq_nil hfront h.starts)] at hblock
  have hopened : (front.openBlock (Text.trim b.prelude)).stack
      = [] ++ front.frame (Text.trim b.prelude) :: front.stack := rfl
  obtain ⟨inner, hstack, hcount⟩ := ScanState.run_keeps hopened h.unclosed hblock
  have hdepth : b.depth = inner.length := by
    have hb := h.depth_add
    rw [List.length_nil] at hcount
    omega
  exact ⟨front, hfront, by rw [hstack, hdepth, List.drop_left]⟩

/-- Every frame on the stack is that of an open block. -/
theorem ScanState.exists_isOpenIn {t : Text} {s : ScanState} (hrun : start.run t = .ok s)
    {depth : Nat} (hdepth : depth < s.stack.length) :
    ∃ b : Block, b.IsOpenIn t ∧ b.depth = depth := by
  rcases run_cases .start t with ⟨hcloses, final, hfinal, hcount⟩ | ⟨-, hfinal⟩
  · rw [hrun] at hfinal
    cases hfinal
    have hexcess : s.stack.length + t.count '}' = 0 + t.count '{' := hcount
    exact Block.exists_isOpenIn hcloses (by omega)
  · rw [hrun] at hfinal
    exact absurd hfinal nofun

/-! ## Points of a scan -/

/-- A point of the scan of a source: a beginning of what cleaning leaves of the
    source, and the state behind it. -/
structure ScanPoint (extension? : Option Text) (source : Text) where
  read : Text
  state : ScanState
  read_prefix : read <+: clean (hasLineComments extension?) source
  run_read : ScanState.start.run read = .ok state

namespace ScanPoint

variable {extension? : Option Text} {source : Text}

/-- **Nested selectors are flattened.**  At every point of the scan of any source, no
    selector of a frame has an `&` in it, and the frames are those of the blocks that
    are open there.  The frame of a block whose prelude begins without an `@`, where the
    frame around it has selectors, has one for each of them and each selector
    of the prelude: each piece between outer commas that is not blank. -/
theorem selectors_flattened (p : ScanPoint extension? source) :
    (∀ frame ∈ p.state.stack, ∀ selector ∈ frame.selectors, '&' ∉ selector)
    ∧ (∀ depth < p.state.stack.length, ∃ b : Block, b.IsOpenIn p.read ∧ b.depth = depth)
    ∧ ∀ b : Block, b.IsOpenIn p.read → ∃ frame, p.state.stack[b.depth]? = some frame
      ∧ ∀ around, p.state.stack[b.depth + 1]? = some around →
        ¬['@'] <+: Text.trim b.prelude → around.selectors ≠ [] →
        ∃ pieces, Selector.IsOuterSplit pieces (Text.trim b.prelude)
          ∧ frame.selectors.length
            = pieces.countP Selector.isSelector * around.selectors.length := by
  refine ⟨?_, fun depth => ScanState.exists_isOpenIn p.run_read, fun b hb => ?_⟩
  · have hlacks : p.state.Lacks '&' := (ScanState.lacks_start '&').run (by decide)
      (fun _ => rfl) (fun _ => Or.inr rfl) p.run_read
    exact hlacks.selectors
  · obtain ⟨front, -, hdrop⟩ := hb.drop_stack p.run_read
    have hframes : ∀ i, p.state.stack[b.depth + i]?
        = (front.frame (Text.trim b.prelude) :: front.stack)[i]? := by
      intro i
      rw [← hdrop, List.getElem?_drop]
    refine ⟨front.frame (Text.trim b.prelude), hframes 0, fun around haround hrule hsome => ?_⟩
    -- the selectors in force in front of the block are those of the frame around it
    have hselectors : front.selectors = around.selectors :=
      ScanState.selectors_eq_of_stack ((hframes 1).symm.trans haround)
    have hpieces := Selector.isOuterSplit_splitTopLevel (Text.trim b.prelude)
    refine ⟨_, hpieces, ?_⟩
    rw [ScanState.selectors_frame hrule, hselectors]
    exact Selector.length_flatten hpieces hsome

/-- A rule inside a condition inside another rule, and one closing brace too many. -/
def overclosed : Text :=
  ".a, .b \x7b @media print \x7b &.c &, :is(.d, &), /*,*/ , .e \x7b\x7d \x7d \x7d \x7d".toList

/-- The block of the innermost rule, as it is when it has just begun. -/
def innermost : Block where
  before := ".a, .b \x7b @media print \x7b".toList
  prelude := " &.c &, :is(.d, &),   , .e ".toList
  inside := []

/-- Its prelude has three selectors, and two of the outermost rule are in force around it. -/
theorem selectors_flattened_overclosed :
    ∃ p : ScanPoint (some "scss".toList) overclosed, innermost.IsOpenIn p.read
      ∧ (∀ frame ∈ p.state.stack, ∀ selector ∈ frame.selectors, '&' ∉ selector)
      ∧ ∃ frame, p.state.stack[0]? = some frame ∧ frame.selectors.length = 3 * 2 := by
  let read := innermost.before ++ (innermost.prelude ++ ['{'])
  have hopen : innermost.IsOpenIn read :=
    ⟨rfl, by decide +kernel, by decide +kernel, Text.neverOvercloses_nil⟩
  have hprefix : read <+: clean (hasLineComments (some "scss".toList)) overclosed := by
    decide +kernel
  have haround : (ScanState.start.run read).toOption.bind (fun s => s.stack[1]?)
      = some ⟨[".a".toList, ".b".toList], false⟩ := by decide +kernel
  cases hrun : ScanState.start.run read with
  | error fault =>
    rw [hrun] at haround
    exact absurd haround nofun
  | ok s =>
    rw [hrun] at haround
    let p : ScanPoint (some "scss".toList) overclosed := ⟨read, s, hprefix, hrun⟩
    obtain ⟨hamp, -, hblocks⟩ := p.selectors_flattened
    obtain ⟨frame, hframe, hcount⟩ := hblocks innermost hopen
    obtain ⟨pieces, hpieces, hlength⟩ :=
      hcount _ haround (by decide +kernel) (List.cons_ne_nil _ _)
    have hthree : pieces.countP Selector.isSelector = 3 := by
      rw [Selector.isOuterSplit_iff.mp hpieces]
      decide +kernel
    rw [hthree] at hlength
    exact ⟨p, hopen, hamp, frame, hframe, hlength⟩

end ScanPoint

end ClassLint.Stylesheet
