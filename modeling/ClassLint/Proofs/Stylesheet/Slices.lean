/-
  ClassLint.Proofs.Stylesheet.Slices

  Selector lists read by byte offsets, and with them all readers that cut a text at
  offsets.  The scan of a prelude keeps the offset where the present piece starts and
  the offset that it has come to; a piece is the slice between them.  So every slice
  that is taken, of a token, of an arbitrary value or of a prelude, lies in its text
  between two characters, whatever the text is.
-/

import ClassLint.Proofs.Stylesheet.Names
import ClassLint.Proofs.Text.Slices
import ClassLint.Proofs.Token.Slices

namespace ClassLint

namespace Selector

/-- The trimmed pieces between the commas at depth zero, by byte offsets: the present piece
    starts at `start`, and the rest of the prelude stands at `offset`. -/
def splitBySlices (prelude : Text) (start offset : Nat) (depth : Int) : Text → Slicing (List Text)
  | [] => do
    let piece ← Slicing.take prelude start (Text.byteLength prelude)
    pure [Text.trim piece]
  | c :: rest =>
    if c = ',' ∧ depth = 0 then do
      let piece ← Slicing.take prelude start offset
      let pieces ← splitBySlices prelude (offset + 1) (offset + c.utf8Size) depth rest
      pure (Text.trim piece :: pieces)
    else splitBySlices prelude start (offset + c.utf8Size) (depthAfter depth c) rest

/-- The selectors of a prelude, by byte offsets. -/
def partsBySlices (prelude : Text) : Slicing (List Text) := do
  let pieces ← splitBySlices prelude 0 0 0 prelude
  pure (pieces.filter fun p => !p.isEmpty)

/-- What stands in front of the present piece, the piece so far and the rest make up the
    prelude; the pieces to come are those of the rest, the first of them behind the piece
    so far. -/
theorem splitBySlices_gives {prelude before piece rest first : Text} {others : List Text}
    {start offset : Nat} {depth : Int} (hprelude : prelude = before ++ piece ++ rest)
    (hstart : Text.byteLength before = start)
    (hoffset : Text.byteLength before + Text.byteLength piece = offset)
    (hsplit : splitTopLevel depth rest = first :: others) :
    (splitBySlices prelude start offset depth rest).Gives
      (((piece ++ first) :: others).map Text.trim) := by
  induction rest generalizing before piece start offset depth first others with
  | nil =>
    obtain ⟨rfl, rfl⟩ := List.cons.inj hsplit
    rw [List.append_nil] at hprelude ⊢
    exact (Slicing.gives_take_end hprelude hstart).bind (Slicing.gives_pure _)
  | cons c rest ih =>
    unfold splitTopLevel at hsplit
    unfold splitBySlices
    by_cases hcomma : c = ',' ∧ depth = 0
    · rw [if_pos hcomma] at hsplit ⊢
      obtain ⟨rfl, rfl⟩ := List.cons.inj hsplit
      obtain ⟨next, more, hnext⟩ := List.exists_cons_of_ne_nil (splitTopLevel_ne_nil depth rest)
      have hpiece : (Slicing.take prelude start offset).Gives piece :=
        Slicing.gives_take hprelude hstart hoffset
      -- the comma is one byte, and the next piece starts behind it
      have hbehind : Text.byteLength (before ++ piece ++ [c]) = offset + 1 := by
        rw [Text.byteLength_append, Text.byteLength_append, hoffset, hcomma.1]
        rfl
      have hpieces : (splitBySlices prelude (offset + 1) (offset + c.utf8Size) depth rest).Gives
          ((([] ++ next) :: more).map Text.trim) := by
        refine ih ?_ hbehind ?_ hnext
        · rw [hprelude, List.append_nil, List.append_assoc _ [c], List.singleton_append]
        · rw [hbehind, hcomma.1]
          rfl
      rw [hnext, List.append_nil]
      exact hpiece.bind (hpieces.bind (Slicing.gives_pure _))
    · rw [if_neg hcomma] at hsplit ⊢
      obtain ⟨next, more, hnext⟩ :=
        List.exists_cons_of_ne_nil (splitTopLevel_ne_nil (depthAfter depth c) rest)
      rw [hnext] at hsplit
      obtain ⟨rfl, rfl⟩ := List.cons.inj hsplit
      have hgrown : prelude = before ++ (piece ++ [c]) ++ rest := by
        rw [hprelude, List.append_assoc, List.append_assoc, List.append_assoc,
          List.singleton_append]
      have hread : Text.byteLength before + Text.byteLength (piece ++ [c]) = offset + c.utf8Size := by
        rw [Text.byteLength_append, ← hoffset, Nat.add_assoc]
        rfl
      have hgives := ih hgrown hstart hread hnext
      rw [List.append_assoc, List.singleton_append] at hgives
      exact hgives

theorem partsBySlices_gives (prelude : Text) : (partsBySlices prelude).Gives (parts prelude) := by
  obtain ⟨first, others, hsplit⟩ := List.exists_cons_of_ne_nil (splitTopLevel_ne_nil 0 prelude)
  have hstart : prelude = [] ++ [] ++ prelude := rfl
  have hpieces := splitBySlices_gives hstart Text.byteLength_nil (Nat.zero_add 0) hsplit
  unfold partsBySlices parts
  rw [hsplit]
  exact hpieces.bind (Slicing.gives_pure _)

end Selector

/-- **No slice goes out of range.**  Of any text, read as a token, as an arbitrary value or as
    the prelude of a rule, every slice that is taken has its ends in order, within the
    bytes of its text and between characters; so each reader comes to its end, with the
    result of the reader that works on characters. -/
theorem slices_are_whole (t : Text) :
    (∀ s ∈ (Token.parseBySlices t).taken ++ (Arbitrary.parseBySlices t).taken
        ++ (Selector.partsBySlices t).taken, s.IsWhole)
    ∧ (Token.parseBySlices t).result? = some (Token.parse t)
    ∧ (Arbitrary.parseBySlices t).result? = some (Arbitrary.parse? t)
    ∧ (Selector.partsBySlices t).result? = some (Selector.parts t) := by
  have htoken := Token.parseBySlices_gives t
  have harbitrary := Arbitrary.parseBySlices_gives t
  have hselectors := Selector.partsBySlices_gives t
  refine ⟨fun s hs => ?_, htoken.result, harbitrary.result, hselectors.result⟩
  rcases List.mem_append.mp hs with hs | hs
  · rcases List.mem_append.mp hs with hs | hs
    · exact htoken.whole s hs
    · exact harbitrary.whole s hs
  · exact hselectors.whole s hs

end ClassLint
