/-
  ClassLint.Proofs.Resolution.Exactness

  Which files a list of patterns stands for, told by what the patterns match.  What
  is taken for granted is a way of matching that follows the patterns that can be
  read, and lists the paths that match and lead somewhere.  Then the resolution
  fails exactly if some pattern cannot be read, and else gives each matched regular
  file that is not excluded, once, where the first pattern that admits it has it.

  Exclusion goes by components.  A directory spelled with a leading `./` has one
  component more than the paths that are listed below it, so that none of them is
  below it by components, and the directory itself may exclude them.
-/

import ClassLint.Proofs.FileTree.Spelling
import ClassLint.Proofs.Resolution.Listing

namespace ClassLint.Resolution

variable {glob : Text → Except Glob.Fault (List Path)} {t : FileTree}
  {Matches : Text → Path → Prop} {patterns : List Text} {cwd : Path}

/-! ## Exclusion -/

/-- The components of a path that exclusion looks at: those below the working
    directory; for a path outside it those below the root of the pattern; for a path
    that is below neither of them all. -/
def IsCounted (cwd : Path) (root : List Component) (p : Path) (counted : List Component) : Prop :=
  cwd.components ++ counted = p.components
  ∨ ¬ cwd.components <+: p.components
    ∧ (root ++ counted = p.components ∨ ¬ root <+: p.components ∧ counted = p.components)

/-- A component that counts has an excluded name. -/
def Excluded (cwd : Path) (root : List Component) (p : Path) : Prop :=
  ∃ counted, IsCounted cwd root p counted ∧ ∃ name ∈ excludedNames, .name name ∈ counted

theorem isPrefixOf?_eq_none_iff {xs ys : List Component} :
    xs.isPrefixOf? ys = none ↔ ¬ xs <+: ys := by
  rw [← List.isPrefixOf_iff_prefix, ← List.isSome_isPrefixOf?_eq_isPrefixOf]
  cases xs.isPrefixOf? ys <;> simp

theorem isCounted_iff {root : List Component} {p : Path} {counted : List Component} :
    IsCounted cwd root p counted ↔ relevant cwd root p = counted := by
  unfold IsCounted relevant Path.below?
  cases hcwd : cwd.components.isPrefixOf? p.components with
  | some rest =>
    -- below the working directory nothing else counts
    have hrest := List.isPrefixOf?_eq_some_iff_append_eq.mp hcwd
    rw [← hrest]
    simp [eq_comm]
  | none =>
    -- outside it the root of the pattern decides
    have hnone := isPrefixOf?_eq_none_iff.mp hcwd
    have houtside : cwd.components ++ counted ≠ p.components := fun heq => hnone ⟨counted, heq⟩
    cases hroot : root.isPrefixOf? p.components with
    | some rest =>
      have hrest := List.isPrefixOf?_eq_some_iff_append_eq.mp hroot
      have hbelow : root <+: p.components := ⟨rest, hrest⟩
      simp only [hnone, houtside, hbelow, not_true, not_false_iff, false_and, or_false, false_or,
        true_and, Option.none_or, Option.getD_some]
      rw [← hrest, List.append_cancel_left_eq, eq_comm]
    | none =>
      have hnone' := isPrefixOf?_eq_none_iff.mp hroot
      have houtside' : root ++ counted ≠ p.components := fun heq => hnone' ⟨counted, heq⟩
      simp only [hnone, houtside, hnone', houtside', not_false_iff, false_or, true_and,
        Option.or_none, Option.getD_none]
      exact eq_comm

theorem isExcludedComponent_iff {c : Component} :
    isExcludedComponent c = true ↔ ∃ name ∈ excludedNames, .name name = c := by
  cases c <;> simp [isExcludedComponent]

theorem isExcluded_iff {root : List Component} {p : Path} :
    isExcluded cwd root p = true ↔ Excluded cwd root p := by
  unfold isExcluded Excluded
  rw [List.any_eq_true]
  constructor
  · rintro ⟨c, hc, hexcluded⟩
    obtain ⟨name, hname, rfl⟩ := isExcludedComponent_iff.mp hexcluded
    exact ⟨_, isCounted_iff.mpr rfl, name, hname, hc⟩
  · rintro ⟨counted, hcounted, name, hname, hmem⟩
    rw [isCounted_iff.mp hcounted]
    exact ⟨.name name, hmem, isExcludedComponent_iff.mpr ⟨name, hname, rfl⟩⟩

/-! ## What is taken for granted of matching -/

/-- A pattern that can be read is followed, and the paths that match it and lead
    somewhere are listed. -/
structure Lists (glob : Text → Except Glob.Fault (List Path)) (t : FileTree)
    (Matches : Text → Path → Prop) (pattern : Text) : Prop where
  isOk_iff : (glob pattern).isOk = true ↔ Glob.IsReadable pattern
  mem_iff : ∀ listed, glob pattern = .ok listed →
    ∀ p, p ∈ listed ↔ Matches pattern p ∧ (t.stat p).isOk = true

theorem mem_admitted_iff {anchored : Bool} {pattern : Text} {p : Path}
    (hlists : Lists glob t Matches (expanded anchored cwd pattern).1)
    (hreadable : Glob.IsReadable (expanded anchored cwd pattern).1) :
    p ∈ admitted glob anchored cwd pattern
      ↔ (Matches (expanded anchored cwd pattern).1 p ∧ (t.stat p).isOk = true)
        ∧ ¬ Excluded cwd (expanded anchored cwd pattern).2 p := by
  obtain ⟨listed, hlisted⟩ := Glob.exists_eq_ok (hlists.isOk_iff.mpr hreadable)
  rw [admitted, hlisted, List.mem_filter, ← isExcluded_iff, Bool.not_eq_true', Bool.not_eq_true,
    ← hlists.mem_iff listed hlisted]
  rfl

/-! ## Files -/

theorem file?_eq_some_iff {p : Path} {f : ResolvedFile} :
    file? t p = some f ↔ p = f.path ∧ ∃ content, t.stat f.path = .ok (.file content f.modified) := by
  unfold file?
  constructor
  · intro h
    split at h
    · next content modified hstat =>
      obtain rfl := Option.some.inj h
      exact ⟨rfl, content, hstat⟩
    · exact absurd h (by simp)
  · rintro ⟨rfl, content, hstat⟩
    rw [hstat]

/-- The files of a list of patterns: every matched regular file that is not excluded,
    as it is in the tree, once, and where the first pattern that admits it lists it. -/
structure IsResolution (glob : Text → Except Glob.Fault (List Path)) (t : FileTree)
    (Matches : Text → Path → Prop) (patterns : List Text) (cwd : Path)
    (files : List ResolvedFile) : Prop where
  inOrder : files = ((patterns.flatMap (admitted glob (isAnchored patterns) cwd)).eraseDupsBy
    Path.same).filterMap (file? t)
  apart : files.Pairwise fun f g => g.path.same f.path = false
  found : ∀ f ∈ files, (∃ content, t.stat f.path = .ok (.file content f.modified))
    ∧ ∃ pattern ∈ patterns, Matches (expanded (isAnchored patterns) cwd pattern).1 f.path
      ∧ ¬ Excluded cwd (expanded (isAnchored patterns) cwd pattern).2 f.path
  complete : ∀ pattern ∈ patterns, ∀ p content modified,
    Matches (expanded (isAnchored patterns) cwd pattern).1 p →
    t.stat p = .ok (.file content modified) →
    ¬ Excluded cwd (expanded (isAnchored patterns) cwd pattern).2 p →
    ∃ f ∈ files, p.same f.path = true ∧ f.modified = modified

theorem isResolution_of_readable
    (hlists : ∀ pattern ∈ patterns,
      Lists glob t Matches (expanded (isAnchored patterns) cwd pattern).1)
    (hreadable : ∀ pattern ∈ patterns,
      Glob.IsReadable (expanded (isAnchored patterns) cwd pattern).1) :
    IsResolution glob t Matches patterns cwd
      (((patterns.flatMap (admitted glob (isAnchored patterns) cwd)).eraseDupsBy
        Path.same).filterMap (file? t)) := by
  refine ⟨rfl, ?_, fun f hf => ?_, fun pattern hpattern p content modified hmatches hfile hkept => ?_⟩
  · refine List.pairwise_filterMap.mpr ((pairwise_eraseDupsBy _).imp fun happart f hf g hg => ?_)
    rwa [← (file?_eq_some_iff.mp hf).1, ← (file?_eq_some_iff.mp hg).1]
  · obtain ⟨p, hp, hfile⟩ := List.mem_filterMap.mp hf
    obtain ⟨rfl, hstat⟩ := file?_eq_some_iff.mp hfile
    obtain ⟨pattern, hpattern, hadmitted⟩ := List.mem_flatMap.mp (mem_of_mem_eraseDupsBy hp)
    obtain ⟨⟨hmatches, -⟩, hkept⟩ :=
      (mem_admitted_iff (hlists pattern hpattern) (hreadable pattern hpattern)).mp hadmitted
    exact ⟨hstat, pattern, hpattern, hmatches, hkept⟩
  · have hadmitted : p ∈ patterns.flatMap (admitted glob (isAnchored patterns) cwd) :=
      List.mem_flatMap.mpr ⟨pattern, hpattern,
        (mem_admitted_iff (hlists pattern hpattern) (hreadable pattern hpattern)).mpr
          ⟨⟨hmatches, by rw [hfile]; rfl⟩, hkept⟩⟩
    obtain ⟨q, hq, hsame⟩ := exists_mem_eraseDupsBy Path.same_refl hadmitted
    -- the spelling that came first leads to the same file
    obtain ⟨first, hfirst, hlisted⟩ := List.mem_flatMap.mp (mem_of_mem_eraseDupsBy hq)
    obtain ⟨⟨-, hexists⟩, -⟩ :=
      (mem_admitted_iff (hlists first hfirst) (hreadable first hfirst)).mp hlisted
    obtain ⟨node, hstat⟩ := Glob.exists_eq_ok hexists
    obtain rfl : node = .file content modified :=
      Except.ok.inj ((FileTree.stat_of_same_file hsame hfile hstat).symm.trans hfile)
    exact ⟨⟨q, modified⟩, List.mem_filterMap.mpr
      ⟨q, hq, file?_eq_some_iff.mpr ⟨rfl, content, hstat⟩⟩, hsame, rfl⟩

/-- **A resolution fails or is exact.**  It fails exactly if some pattern, as it is
    followed, cannot be read.  Otherwise it gives every regular file that a pattern
    matches and does not exclude, with the time of its last change, once, and in the
    order in which the patterns list what they admit.  A path counts in full for
    exclusion if it is neither below the working directory nor below the root of the
    pattern. -/
theorem filesBy_exact (glob : Text → Except Glob.Fault (List Path)) (t : FileTree)
    (Matches : Text → Path → Prop) (patterns : List Text) (cwd : Path)
    (hlists : ∀ pattern ∈ patterns,
      Lists glob t Matches (expanded (isAnchored patterns) cwd pattern).1) :
    ((∃ pattern ∈ patterns, ¬ Glob.IsReadable (expanded (isAnchored patterns) cwd pattern).1)
      ∧ ∃ fault, filesBy glob t patterns cwd = .error fault)
    ∨ ((∀ pattern ∈ patterns, Glob.IsReadable (expanded (isAnchored patterns) cwd pattern).1)
      ∧ ∃ files, filesBy glob t patterns cwd = .ok files
        ∧ IsResolution glob t Matches patterns cwd files) := by
  rw [filesBy_eq]
  by_cases hreadable : ∀ pattern ∈ patterns,
      Glob.IsReadable (expanded (isAnchored patterns) cwd pattern).1
  · have hfollowed : ∀ pattern ∈ patterns,
        (glob (expanded (isAnchored patterns) cwd pattern).1).isOk = true := fun pattern hpattern =>
      (hlists pattern hpattern).isOk_iff.mpr (hreadable pattern hpattern)
    exact Or.inr ⟨hreadable, _, filesUnder_eq_ok t hfollowed, isResolution_of_readable hlists hreadable⟩
  · obtain ⟨pattern, hpattern, hnot⟩ : ∃ pattern ∈ patterns,
        ¬ Glob.IsReadable (expanded (isAnchored patterns) cwd pattern).1 := by
      simpa only [not_forall, exists_prop] using hreadable
    refine Or.inl ⟨⟨pattern, hpattern, hnot⟩, ?_⟩
    cases hfiles : filesUnder glob t (isAnchored patterns) patterns cwd with
    | error fault => exact ⟨fault, rfl⟩
    | ok files =>
      have hok := (isOk_filesUnder_iff t).mp (by rw [hfiles]; rfl) pattern hpattern
      exact absurd ((hlists pattern hpattern).isOk_iff.mp hok) hnot

/-- What the paths of a pattern are is what matches it, as long as all of them lead
    somewhere. -/
theorem lists_paths {pattern : Text}
    (h : ∀ p ∈ (Glob.paths t pattern).toOption.getD [], (t.stat p).isOk = true) :
    Lists (Glob.paths t) t (fun pattern p => p ∈ (Glob.paths t pattern).toOption.getD []) pattern := by
  refine ⟨Glob.isOk_paths t pattern, fun listed hlisted p => ?_⟩
  rw [hlisted] at h ⊢
  exact ⟨fun hp => ⟨hp, h p hp⟩, And.left⟩

/-- A tree with a stylesheet in a directory of an excluded name. -/
def withBuild : FileTree :=
  ((FileTree.ofWorkingDirectory [] 5).put ["build".toList] (.directory 5)).put
    ["build".toList, "a.css".toList] (.file (Text.toBytes ".a{}".toList) 7)

/-- Below the working directory the name of the directory itself excludes nothing, and
    a file that two patterns match is given once. -/
theorem filesBy_exact_twice :
    (∀ pattern ∈ ["*.css".toList, "a.*".toList],
      Lists (Glob.paths withBuild) withBuild
        (fun pattern p => p ∈ (Glob.paths withBuild pattern).toOption.getD [])
        (expanded (isAnchored ["*.css".toList, "a.*".toList]) (.ofString "build") pattern).1)
    ∧ ∃ found, files withBuild ["*.css".toList, "a.*".toList] (.ofString "build") = .ok found
      ∧ found = [⟨.ofString "build/a.css", 7⟩] := by
  have hlists : ∀ pattern ∈ ["*.css".toList, "a.*".toList],
      Lists (Glob.paths withBuild) withBuild
        (fun pattern p => p ∈ (Glob.paths withBuild pattern).toOption.getD [])
        (expanded (isAnchored ["*.css".toList, "a.*".toList]) (.ofString "build") pattern).1 := by
    have hexists : ∀ pattern ∈ ["*.css".toList, "a.*".toList],
        ∀ p ∈ (Glob.paths withBuild (expanded (isAnchored ["*.css".toList, "a.*".toList])
          (.ofString "build") pattern).1).toOption.getD [], (withBuild.stat p).isOk = true := by
      decide +kernel
    exact fun pattern hpattern => lists_paths (hexists pattern hpattern)
  refine ⟨hlists, ?_⟩
  obtain ⟨⟨pattern, hpattern, hnot⟩, -⟩ | ⟨-, found, hfound, hresolution⟩ :=
    filesBy_exact (Glob.paths withBuild) withBuild
      (fun pattern p => p ∈ (Glob.paths withBuild pattern).toOption.getD [])
      ["*.css".toList, "a.*".toList] (.ofString "build") hlists
  · have hreadable : ∀ pattern ∈ ["*.css".toList, "a.*".toList], Glob.IsReadable
        (expanded (isAnchored ["*.css".toList, "a.*".toList]) (.ofString "build") pattern).1 := by
      decide +kernel
    exact absurd (hreadable pattern hpattern) hnot
  · refine ⟨found, hfound, ?_⟩
    rw [hresolution.inOrder]
    decide +kernel

/-- The same directory, spelled with a leading `./`, is followed to the same file, but
    its own name excludes the file then. -/
theorem files_dotted_ne :
    withBuild.locate (.ofString "./build") = withBuild.locate (.ofString "build")
      ∧ Glob.paths withBuild (expanded false (.ofString "./build") "*.css".toList).1
        = .ok [.ofString "build/a.css"]
      ∧ files withBuild ["*.css".toList] (.ofString "build") = .ok [⟨.ofString "build/a.css", 7⟩]
      ∧ files withBuild ["*.css".toList] (.ofString "./build") = .ok [] := by
  decide +kernel

end ClassLint.Resolution
