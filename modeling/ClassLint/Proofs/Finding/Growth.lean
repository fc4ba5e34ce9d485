/-
  ClassLint.Proofs.Finding.Growth

  What more stylesheets do to a check.  Every valid name stays valid, and what
  is a utility stays one.  But a stylesheet that spells out a name which is a
  utility only because a wildcard matches it, or because it is an arbitrary
  value, takes that name for the stylesheets: it is still a utility, and yet it
  counts as a stylesheet's own, and no variant may stand in front of it any
  more.  No other token that passed is reported.
-/

import ClassLint.Proofs.Finding.Precedence
import ClassLint.Proofs.Registry.Monotone

namespace ClassLint.RegistryRequest

variable {r : RegistryRequest} {g : Generator} {t : FileTree} {key? key?' : Option Digest}
  {files : List Path} {name : Text}

/-! ## Names with more files -/

theorem within_of_files (hfiles : ∀ p ∈ r.files, p ∈ files) :
    Within t g g r { r with files } where
  files := hfiles
  allowlist := List.Subset.refl _
  blocklist := List.Subset.refl _
  enabled := rfl
  catalogue := rfl

/-- A name that was not defined before is defined by a file that was not asked for. -/
theorem mem_stylesheetNames_new (h : name ∈ { r with files }.stylesheetNames t)
    (hnew : name ∉ r.stylesheetNames t) :
    ∃ p ∈ files, p ∉ r.files
      ∧ ∃ found, t.stylesheet? p = some found ∧ name ∈ found.classes.toList := by
  obtain ⟨p, hp, found, hfound, hname⟩ := mem_stylesheetNames.mp h
  refine ⟨p, hp, ?_, found, hfound, hname⟩
  intro hold
  exact hnew (mem_stylesheetNames.mpr ⟨p, hold, found, hfound, hname⟩)

/-- Stylesheets make no utilities. -/
theorem isUtility_of_files :
    ({ r with files }.build g t key?').isUtility name = (r.build g t key?).isUtility name := by
  rw [Bool.eq_iff_iff, isUtility_build, isUtility_build]
  exact Iff.rfl

/-- What was valid stays valid. -/
theorem isValid_of_more_files (hfiles : ∀ p ∈ r.files, p ∈ files)
    (h : (r.build g t key?).isValid name = true) :
    ({ r with files }.build g t key?').isValid name = true :=
  (within_of_files hfiles).isValid h

/-! ## Utilities that stylesheets take -/

/-- What was left to utilities still is, unless it counts as a stylesheet's own now. -/
theorem isUtilityOnly_of_files (h : (r.build g t key?).isUtilityOnly name = true) :
    ({ r with files }.build g t key?').isUtilityOnly name
      = !({ r with files }.build g t key?').isCss name := by
  simp only [Registry.isUtilityOnly, Bool.and_eq_true] at h
  have hutility : ({ r with files }.build g t key?').isUtility name = true :=
    isUtility_of_files.trans h.2
  rw [Registry.isUtilityOnly, hutility, Bool.and_true]

/-- A name that was left to utilities and counts as a stylesheet's own now is
    defined by a new file, and was a utility without standing in a list. -/
theorem new_of_isCss_of_files (h : (r.build g t key?).isUtilityOnly name = true)
    (hcss : ({ r with files }.build g t key?').isCss name = true) :
    (∃ p ∈ files, p ∉ r.files
      ∧ ∃ found, t.stylesheet? p = some found ∧ name ∈ found.classes.toList)
      ∧ ¬ r.Names g t name ∧ r.Admits name := by
  simp only [Registry.isUtilityOnly, Bool.and_eq_true, Bool.not_eq_true', ← Bool.not_eq_true] at h
  obtain ⟨hcssOld, hutility⟩ := h
  obtain ⟨hdefined, hblocks, hnames⟩ := isCss_build.mp hcss
  -- had an old file defined the name, it would have been a stylesheet's own before
  have hnew : name ∉ r.stylesheetNames t := by
    intro hold
    exact hcssOld (isCss_build.mpr ⟨hold, hblocks, hnames⟩)
  exact ⟨mem_stylesheetNames_new hdefined hnew, hnames,
    (isUtility_build.mp hutility).2.resolve_left hnames⟩

/-! ## Checks with more files -/

/-- **More stylesheets make a finding in one way only.**  Where a token passed
    and more files are asked for, either it passes again or its base is
    reported.  The latter happens exactly if the base is not ignored, has
    variants in front of it and now counts as a stylesheet's own.  Then one of
    the new files defines it, neither the catalogue nor the allow list has it,
    and it is a utility as a match of a wildcard or as an arbitrary value. -/
theorem check_of_more_files (hfiles : ∀ p ∈ r.files, p ∈ files) (ignore : List NamePattern)
    (token : Text) (hpasses : (r.build g t key?).check ignore token = none) :
    let more := { r with files }.build g t key?'
    let parsed := Token.parse token
    (more.check ignore token = none
        ∨ more.check ignore token = some (.invalidClass parsed.base))
      ∧ (more.check ignore token ≠ none ↔
          NamePattern.anyAccepts ignore parsed.base = false ∧ parsed.variants ≠ []
            ∧ more.isCss parsed.base = true)
      ∧ (more.check ignore token ≠ none →
          (∃ p ∈ files, p ∉ r.files
            ∧ ∃ found, t.stylesheet? p = some found ∧ parsed.base ∈ found.classes.toList)
          ∧ ¬ r.Names g t parsed.base ∧ r.Admits parsed.base) := by
  intro more parsed
  have hunion : (r.build g t key?).IsUnion := Registry.isUnion_ofSources key? (r.sources g t)
  have hunion' : more.IsUnion := Registry.isUnion_ofSources key?' _
  cases hignored : NamePattern.anyAccepts ignore parsed.base with
  | true =>
    have hagain : more.check ignore token = none := Registry.check_of_ignored hignored
    simp [hagain]
  | false =>
    obtain ⟨hempty, hvalid, hbase⟩ :=
      (Registry.check_eq_none_of_not_ignored_iff hunion hignored).mp hpasses
    have hvalid' : more.isValid token = true := isValid_of_more_files hfiles hvalid
    -- the token is valid with more files too, so that all depends on its base
    have hagain : more.check ignore token = none ↔
        parsed.variants = [] ∨ more.isUtilityOnly parsed.base = true := by
      rw [Registry.check_eq_none_of_not_ignored_iff hunion' hignored]
      simp only [hempty, hvalid', true_and]
      rfl
    by_cases hvariants : parsed.variants = []
    · have hnone := hagain.mpr (Or.inl hvariants)
      simp [hnone, hvariants]
    · have honly := hbase.resolve_left hvariants
      have honly' : more.isUtilityOnly parsed.base = !more.isCss parsed.base :=
        isUtilityOnly_of_files honly
      cases hcss : more.isCss parsed.base with
      | false =>
        have hnone := hagain.mpr (Or.inr (by rw [honly', hcss]; rfl))
        simp [hnone]
      | true =>
        rw [hcss] at honly'
        have hsome : more.check ignore token = some (.invalidClass parsed.base) :=
          Registry.check_of_not_isUtilityOnly hunion' hignored hvariants honly'
        refine ⟨Or.inr hsome, by simp [hsome, hvariants], ?_⟩
        intro _
        exact new_of_isCss_of_files honly hcss

/-! ## An arbitrary value spelled out -/

/-- A directory with a stylesheet that spells out an arbitrary value. -/
def spelled : FileTree :=
  ((FileTree.ofWorkingDirectory [] 5).write (.ofString "a.css")
    (Text.toBytes ".w-\\[1px\\] \x7b\x7d".toList) 7).toOption.getD (.ofWorkingDirectory [] 5)

/-- A request for no files, with a catalogue. -/
def unstyled : RegistryRequest where
  files := []
  settings? := some {}
  allowlist := []
  blocklist := []
  ignore := []
  cwd := .ofString "."

/-- A catalogue of one variant. -/
def hovering : Generator := .fixed ⟨∅, OrderedSet.ofList ["hover".toList]⟩

/-- The token passes as long as the stylesheet is not asked for. -/
theorem check_spelled_ne :
    (unstyled.build hovering spelled none).check [] "hover:w-[1px]".toList = none
      ∧ ({ unstyled with files := [.ofString "a.css"] }.build hovering spelled none).check []
          "hover:w-[1px]".toList = some (.invalidClass "w-[1px]".toList) := by
  decide +kernel

theorem check_of_more_files_spelled :
    (∀ p ∈ unstyled.files, p ∈ [Path.ofString "a.css"])
      ∧ (unstyled.build hovering spelled none).check [] "hover:w-[1px]".toList = none
      ∧ (({ unstyled with files := [.ofString "a.css"] }.build hovering spelled none).check []
            "hover:w-[1px]".toList ≠ none)
      ∧ unstyled.Admits "w-[1px]".toList := by
  have hfiles : ∀ p ∈ unstyled.files, p ∈ [Path.ofString "a.css"] := by simp [unstyled]
  have hpasses : (unstyled.build hovering spelled none).check [] "hover:w-[1px]".toList = none := by
    decide +kernel
  have hmore := @check_of_more_files unstyled hovering spelled none none _ hfiles []
    "hover:w-[1px]".toList hpasses
  have hreported := hmore.2.1.mpr (by decide +kernel)
  have hbase : (Token.parse "hover:w-[1px]".toList).base = "w-[1px]".toList := by decide +kernel
  refine ⟨hfiles, hpasses, hreported, ?_⟩
  rw [← hbase]
  exact (hmore.2.2 hreported).2.2

end ClassLint.RegistryRequest
