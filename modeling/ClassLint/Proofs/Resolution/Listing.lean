/-
  ClassLint.Proofs.Resolution.Listing

  The files of a list of patterns, as an equation.  Every pattern lists paths, some
  of which are excluded; of all that are left, in the order of the patterns, the
  first spelling of each path counts, and of these the regular files are given.
  Whether all patterns are followed as they are is settled for the whole list
  before: that apart, what a longer list gives begins with what the list gives.
-/

import ClassLint.Resolution
import ClassLint.Proofs.Glob.Reading
import ClassLint.Proofs.Path.Spelling
import Mathlib.Data.List.Infix

namespace ClassLint.Resolution

/-! ## First occurrences -/

section

variable {α : Type} {r : α → α → Bool}

/-- Of a longer list those are left besides that are not among the first ones. -/
theorem eraseDupsBy_append (as bs : List α) :
    (as ++ bs).eraseDupsBy r = as.eraseDupsBy r
      ++ (bs.filter fun b => !(as.eraseDupsBy r).any (r b)).eraseDupsBy r := by
  -- the rest of `eraseDupsBy_cons` is filtered, and so shorter but no part of `as`
  induction hlength : as.length using Nat.strongRecOn generalizing as bs with
  | ind n ih =>
    cases as with
    | nil =>
      have hall : (bs.filter fun b => !(List.eraseDupsBy r []).any (r b)) = bs :=
        List.filter_eq_self.mpr fun _ _ => rfl
      rw [hall]
      rfl
    | cons a as =>
      subst hlength
      have hshorter : (as.filter fun b => decide (r b a = false)).length < (a :: as).length :=
        Nat.lt_succ_of_le (List.length_filter_le _ _)
      rw [List.cons_append, List.eraseDupsBy_cons, List.eraseDupsBy_cons, List.filter_append,
        ih _ hshorter _ _ rfl, List.cons_append, List.filter_filter]
      congr 4
      funext b
      simp only [List.any_cons]
      cases r b a <;> simp

/-- A last member is left if none before it stands for it. -/
theorem eraseDupsBy_concat (as : List α) (b : α) :
    (as ++ [b]).eraseDupsBy r
      = if (as.eraseDupsBy r).any (r b) then as.eraseDupsBy r else as.eraseDupsBy r ++ [b] := by
  rw [eraseDupsBy_append]
  cases hany : (as.eraseDupsBy r).any (r b) <;>
    simp [hany, List.eraseDupsBy_cons, List.eraseDupsBy_nil]

theorem mem_of_mem_eraseDupsBy {as : List α} {a : α} (h : a ∈ as.eraseDupsBy r) : a ∈ as := by
  induction as using List.reverseRecOn with
  | nil => exact h
  | append_singleton as b ih =>
    rw [eraseDupsBy_concat] at h
    split at h
    · exact List.mem_append_left _ (ih h)
    · exact (List.mem_append.mp h).elim (fun hold => List.mem_append_left _ (ih hold))
        (List.mem_append_right _)

/-- Every member of a list is left, or one before it that stands for it. -/
theorem exists_mem_eraseDupsBy (hrefl : ∀ a, r a a = true) {as : List α} {a : α} (h : a ∈ as) :
    ∃ b ∈ as.eraseDupsBy r, r a b = true := by
  induction as using List.reverseRecOn with
  | nil => exact absurd h List.not_mem_nil
  | append_singleton as c ih =>
    rw [eraseDupsBy_concat]
    rcases List.mem_append.mp h with hold | hlast
    · obtain ⟨b, hb, hr⟩ := ih hold
      refine ⟨b, ?_, hr⟩
      split
      · exact hb
      · exact List.mem_append_left _ hb
    · obtain rfl := List.mem_singleton.mp hlast
      split
      · next hany => exact List.any_eq_true.mp hany
      · exact ⟨a, List.mem_append_right _ hlast, hrefl a⟩

/-- None that is left is stood for by one before it. -/
theorem pairwise_eraseDupsBy (as : List α) :
    (as.eraseDupsBy r).Pairwise fun a b => r b a = false := by
  induction as using List.reverseRecOn with
  | nil => exact List.Pairwise.nil
  | append_singleton as b ih =>
    rw [eraseDupsBy_concat]
    split
    · exact ih
    · next hany =>
      refine List.pairwise_append.mpr ⟨ih, List.pairwise_singleton _ _, fun a ha c hc => ?_⟩
      obtain rfl := List.mem_singleton.mp hc
      simp only [List.any_eq_true, not_exists, not_and, Bool.not_eq_true] at hany
      exact hany a ha

end

variable {glob : Text → Except Glob.Fault (List Path)} {anchored : Bool} {cwd : Path}
  {patterns : List Text}

/-! ## Patterns one after the other -/

/-- The paths that a pattern lists and that are not excluded, in the order of the
    listing. -/
def admitted (glob : Text → Except Glob.Fault (List Path)) (anchored : Bool) (cwd : Path)
    (pattern : Text) : List Path :=
  ((glob (expanded anchored cwd pattern).1).toOption.getD []).filter fun p =>
    !isExcluded cwd (expanded anchored cwd pattern).2 p

theorem fresh_eq (cwd : Path) (root : List Component) (seen listed : List Path) :
    fresh cwd root seen listed
      = ((listed.filter fun p => !isExcluded cwd root p).filter fun p =>
          !seen.any p.same).eraseDupsBy Path.same := by
  induction listed generalizing seen with
  | nil => rfl
  | cons p rest ih =>
    unfold fresh
    cases hexcluded : isExcluded cwd root p with
    | true => simp [ih, hexcluded]
    | false =>
      cases hseen : seen.any p.same with
      | true => simp only [Bool.or_true, if_true, ih, List.filter_cons, hexcluded, hseen,
          Bool.not_true, Bool.not_false, Bool.false_eq_true, if_false]
      | false =>
        -- besides what was seen before, `p` is seen from here on
        have hrest : ∀ paths : List Path, (paths.filter fun q => !(p :: seen).any q.same)
            = (paths.filter fun q => !seen.any q.same).filter fun q => decide (q.same p = false) := by
          intro paths
          rw [List.filter_filter]
          refine List.filter_congr fun q _ => ?_
          rw [List.any_cons]
          cases q.same p <;> simp
        simp only [Bool.or_false, Bool.false_eq_true, if_false, ih, hrest, List.filter_cons,
          hexcluded, hseen, Bool.not_false, if_true, List.eraseDupsBy_cons]

theorem freshPaths_cons (glob : Text → Except Glob.Fault (List Path)) (anchored : Bool) (cwd : Path)
    (seen : List Path) (pattern : Text) (rest : List Text) :
    freshPaths glob anchored cwd seen (pattern :: rest)
      = glob (expanded anchored cwd pattern).1 >>= fun listed =>
        (freshPaths glob anchored cwd
          ((fresh cwd (expanded anchored cwd pattern).2 seen listed).reverse ++ seen) rest).map
            (fresh cwd (expanded anchored cwd pattern).2 seen listed ++ ·) := rfl

/-- Every pattern lists its own paths, and of those of all patterns the first
    spellings are new that were not seen before. -/
theorem freshPaths_eq_ok (seen : List Path)
    (h : ∀ pattern ∈ patterns, (glob (expanded anchored cwd pattern).1).isOk = true) :
    freshPaths glob anchored cwd seen patterns
      = .ok (((patterns.flatMap (admitted glob anchored cwd)).filter fun p =>
          !seen.any p.same).eraseDupsBy Path.same) := by
  induction patterns generalizing seen with
  | nil => rfl
  | cons pattern rest ih =>
    obtain ⟨hpattern, hrest⟩ := List.forall_mem_cons.mp h
    obtain ⟨listed, hlisted⟩ := Glob.exists_eq_ok hpattern
    -- what this pattern finds is seen by those behind it, which is `eraseDupsBy_append`
    have hfound : fresh cwd (expanded anchored cwd pattern).2 seen listed
        = ((admitted glob anchored cwd pattern).filter fun p =>
            !seen.any p.same).eraseDupsBy Path.same := by
      rw [fresh_eq, admitted, hlisted]
      rfl
    simp only [freshPaths_cons, hlisted, bind, Except.bind, hfound]
    rw [List.flatMap_cons, List.filter_append, eraseDupsBy_append, List.filter_filter]
    generalize ((admitted glob anchored cwd pattern).filter fun p =>
      !seen.any p.same).eraseDupsBy Path.same = found
    have hseen : ∀ p : Path, (!(found.reverse ++ seen).any p.same)
        = ((!found.any p.same) && !seen.any p.same) := by
      intro p
      rw [List.any_append, List.any_reverse, Bool.not_or]
    simp only [ih _ hrest, Except.map, hseen]

/-- New paths are told exactly if every pattern can be followed. -/
theorem isOk_freshPaths_iff (seen : List Path) :
    (freshPaths glob anchored cwd seen patterns).isOk = true
      ↔ ∀ pattern ∈ patterns, (glob (expanded anchored cwd pattern).1).isOk = true := by
  refine ⟨fun h => ?_, fun h => by rw [freshPaths_eq_ok seen h]; rfl⟩
  induction patterns generalizing seen with
  | nil => exact fun _ hmem => absurd hmem List.not_mem_nil
  | cons pattern rest ih =>
    rw [freshPaths_cons] at h
    cases hlisted : glob (expanded anchored cwd pattern).1 with
    | error fault =>
      rw [hlisted] at h
      exact absurd h (by simp [bind, Except.bind, Except.isOk, Except.toBool])
    | ok listed =>
      rw [hlisted] at h
      refine List.forall_mem_cons.mpr ⟨by rw [hlisted]; rfl, ih _ ((Glob.isOk_map _ _).symm.trans h)⟩

/-! ## Files -/

/-- The files that patterns stand for, if all are followed as they are, or else all
    from the working directory. -/
def filesUnder (glob : Text → Except Glob.Fault (List Path)) (t : FileTree) (anchored : Bool)
    (patterns : List Text) (cwd : Path) : Except Glob.Fault (List ResolvedFile) :=
  (freshPaths glob anchored cwd [] patterns).map fun paths => paths.filterMap (file? t)

theorem filesBy_eq (glob : Text → Except Glob.Fault (List Path)) (t : FileTree)
    (patterns : List Text) (cwd : Path) :
    filesBy glob t patterns cwd = filesUnder glob t (isAnchored patterns) patterns cwd := by
  unfold filesBy filesUnder
  cases freshPaths glob (isAnchored patterns) cwd [] patterns <;> rfl

theorem filesUnder_eq_ok (t : FileTree)
    (h : ∀ pattern ∈ patterns, (glob (expanded anchored cwd pattern).1).isOk = true) :
    filesUnder glob t anchored patterns cwd
      = .ok (((patterns.flatMap (admitted glob anchored cwd)).eraseDupsBy Path.same).filterMap
          (file? t)) := by
  have hall : ∀ paths : List Path, (paths.filter fun p => !([] : List Path).any p.same) = paths :=
    fun _ => List.filter_eq_self.mpr fun _ _ => rfl
  rw [filesUnder, freshPaths_eq_ok [] h, hall]
  rfl

theorem isOk_filesUnder_iff (t : FileTree) :
    (filesUnder glob t anchored patterns cwd).isOk = true
      ↔ ∀ pattern ∈ patterns, (glob (expanded anchored cwd pattern).1).isOk = true := by
  rw [filesUnder, Glob.isOk_map]
  exact isOk_freshPaths_iff []

/-! ## Added patterns -/

theorem isReadable_fromDirectory (cwd : Path) (pattern : Text) :
    Glob.IsReadable (fromDirectory cwd pattern) ↔ Glob.IsReadable pattern := by
  obtain ⟨base, hbase⟩ := Glob.exists_escape_eq_dropSlashes cwd.text
  unfold fromDirectory
  rw [hbase, Glob.isReadable_escape_append]
  cases hstrip : "./".toList.isPrefixOf? pattern with
  | none => rfl
  | some rest =>
    obtain rfl := List.isPrefixOf?_eq_some_iff_append_eq.mp hstrip
    exact (Glob.isReadable_escape_append ['.'] rest).symm

/-- A pattern can be read exactly if what it is expanded to can be. -/
theorem isReadable_expanded (anchored : Bool) (cwd : Path) (pattern : Text) :
    Glob.IsReadable (expanded anchored cwd pattern).1 ↔ Glob.IsReadable pattern := by
  unfold expanded
  split
  · rfl
  · exact isReadable_fromDirectory cwd pattern

theorem isAnchored_append (ps qs : List Text) :
    isAnchored (ps ++ qs) = (isAnchored ps || isAnchored qs) := List.any_append

/-- **Added patterns lose no files unless they change how the others are read.**  The
    files of a longer list begin with those of the list, read as the longer one is;
    these are the files of the list alone, unless it has no absolute pattern and one
    is added.  A way of matching that follows every pattern that can be read is all
    that this takes. -/
theorem filesBy_append (glob : Text → Except Glob.Fault (List Path)) (t : FileTree) (cwd : Path)
    (ps qs : List Text)
    (hglob : ∀ pattern, Glob.IsReadable pattern → (glob pattern).isOk = true)
    (hreadable : ∀ pattern ∈ ps ++ qs, Glob.IsReadable pattern) :
    ∃ kept all, filesUnder glob t (isAnchored (ps ++ qs)) ps cwd = .ok kept
      ∧ filesBy glob t (ps ++ qs) cwd = .ok all
      ∧ kept <+: all
      ∧ ((isAnchored qs = true → isAnchored ps = true) → filesBy glob t ps cwd = .ok kept) := by
  -- an expanded pattern can be read if the pattern can, in whichever way it is expanded
  have hfollowed : ∀ anchored, ∀ pattern ∈ ps ++ qs,
      (glob (expanded anchored cwd pattern).1).isOk = true := fun anchored pattern hpattern =>
    hglob _ ((isReadable_expanded anchored cwd pattern).mpr (hreadable pattern hpattern))
  have hall := filesUnder_eq_ok t (hfollowed (isAnchored (ps ++ qs)))
  have hkept := filesUnder_eq_ok t fun pattern hpattern =>
    hfollowed (isAnchored (ps ++ qs)) pattern (List.mem_append_left qs hpattern)
  refine ⟨_, _, hkept, (filesBy_eq glob t (ps ++ qs) cwd).trans hall, ?_, fun hanchored => ?_⟩
  · rw [List.flatMap_append, eraseDupsBy_append, List.filterMap_append]
    exact List.prefix_append _ _
  · -- the list alone is read in the same way
    have hsame : isAnchored ps = isAnchored (ps ++ qs) := by
      rw [isAnchored_append]
      cases hqs : isAnchored qs with
      | true => rw [hanchored hqs]; rfl
      | false => rw [Bool.or_false]
    rw [filesBy_eq, hsame]
    exact hkept

/-- A tree with stylesheets in a directory. -/
def withStylesheets : FileTree :=
  (((FileTree.ofWorkingDirectory [] 5).put ["sub".toList] (.directory 5)).put
    ["sub".toList, "a.css".toList] (.file (Text.toBytes ".a{}".toList) 7)).put
    ["sub".toList, "b.css".toList] (.file (Text.toBytes ".b{}".toList) 8)


/-- A second pattern keeps what the first one finds. -/
theorem filesBy_append_wider :
    (∀ pattern, Glob.IsReadable pattern → (Glob.paths withStylesheets pattern).isOk = true)
      ∧ (∀ pattern ∈ ["a.css".toList] ++ ["*.css".toList], Glob.IsReadable pattern)
      ∧ ∃ kept all, files withStylesheets ["a.css".toList] (.ofString "sub") = .ok kept
        ∧ files withStylesheets ["a.css".toList, "*.css".toList] (.ofString "sub") = .ok all
        ∧ kept <+: all ∧ kept ≠ all := by
  have hglob : ∀ pattern, Glob.IsReadable pattern →
      (Glob.paths withStylesheets pattern).isOk = true := fun pattern =>
    (Glob.isOk_paths withStylesheets pattern).mpr
  have hreadable : ∀ pattern ∈ ["a.css".toList] ++ ["*.css".toList], Glob.IsReadable pattern := by
    decide +kernel
  obtain ⟨kept, all, -, hall, hbegins, hkept⟩ :=
    filesBy_append (Glob.paths withStylesheets) withStylesheets (.ofString "sub")
      ["a.css".toList] ["*.css".toList] hglob hreadable
  refine ⟨hglob, hreadable, kept, all, hkept (by decide), hall, hbegins, ?_⟩
  rintro rfl
  have hmore : files withStylesheets ["a.css".toList] (.ofString "sub")
      ≠ files withStylesheets ["a.css".toList, "*.css".toList] (.ofString "sub") := by
    decide +kernel
  exact hmore ((hkept (by decide)).trans hall.symm)

/-- An absolute pattern changes how the first one is read, and its file is lost. -/
theorem filesBy_absolute_ne :
    (∀ pattern ∈ ["a.css".toList] ++ ["/none/*.css".toList], Glob.IsReadable pattern)
      ∧ files withStylesheets ["a.css".toList] (.ofString "sub")
        = .ok [⟨.ofString "sub/a.css", 7⟩]
      ∧ files withStylesheets (["a.css".toList] ++ ["/none/*.css".toList]) (.ofString "sub")
        = .ok [] := by
  decide +kernel

end ClassLint.Resolution
