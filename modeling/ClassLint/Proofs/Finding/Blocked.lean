/-
  ClassLint.Proofs.Finding.Blocked

  The block list overrides all other sources.  Names come into a registry from
  stylesheets, from the catalogue and from the allow list, and some are valid
  without standing in a list at all; a blocked name is none of these, and a
  report does not show it.  A token that is blocked, as a whole or in its base,
  is always found, unless its base is ignored.
-/

import ClassLint.Proofs.Finding.Precedence
import ClassLint.Proofs.Registry.Answers
import ClassLint.Proofs.Report.Names

namespace ClassLint

/-- The registry does not know the name, however it is asked. -/
structure Registry.Excludes (r : Registry) (name : Text) : Prop where
  css : name ∉ r.css.toList
  utilities : name ∉ r.utilities.toList
  all : name ∉ r.all.toList
  report : ∀ time entry, (name, entry) ∉ (Report.ofRegistry time r).classes.toList
  isValid : r.isValid name = false
  isUtility : r.isUtility name = false
  isCss : r.isCss name = false
  isUtilityOnly : r.isUtilityOnly name = false

namespace RegistryRequest

variable {r : RegistryRequest} {g : Generator} {t : FileTree} {key? : Option Digest} {name : Text}

/-! ## Blocked names -/

theorem not_mem_css_of_blocks (h : r.Blocks name) : name ∉ (r.build g t key?).css.toList := by
  rw [← OrderedSet.contains_iff, contains_css_build]
  rintro ⟨-, hblocks⟩
  exact hblocks h

theorem not_mem_utilities_of_blocks (h : r.Blocks name) :
    name ∉ (r.build g t key?).utilities.toList := by
  rw [← OrderedSet.contains_iff, contains_utilities_build]
  rintro ⟨-, hblocks⟩
  exact hblocks h

theorem not_mem_all_of_blocks (h : r.Blocks name) : name ∉ (r.build g t key?).all.toList := by
  have hunion : (r.build g t key?).all.contains name
      = ((r.build g t key?).css.contains name || (r.build g t key?).utilities.contains name) :=
    Registry.isUnion_ofSources key? (r.sources g t) name
  rw [← OrderedSet.contains_iff, hunion, Bool.or_eq_true, OrderedSet.contains_iff,
    OrderedSet.contains_iff]
  rintro (hin | hin)
  · exact not_mem_css_of_blocks h hin
  · exact not_mem_utilities_of_blocks h hin

theorem isValid_of_blocks (h : r.Blocks name) : (r.build g t key?).isValid name = false := by
  rw [← Bool.not_eq_true, isValid_build]
  rintro ⟨hblocks, -⟩
  exact hblocks h

theorem isUtility_of_blocks (h : r.Blocks name) : (r.build g t key?).isUtility name = false := by
  rw [← Bool.not_eq_true, isUtility_build]
  rintro ⟨hblocks, -⟩
  exact hblocks h

theorem isCss_of_blocks (h : r.Blocks name) : (r.build g t key?).isCss name = false := by
  rw [← Bool.not_eq_true, isCss_build]
  rintro ⟨-, hblocks, -⟩
  exact hblocks h

theorem isUtilityOnly_of_blocks (h : r.Blocks name) :
    (r.build g t key?).isUtilityOnly name = false := by
  rw [Registry.isUtilityOnly, isUtility_of_blocks h, Bool.and_false]

/-- A report shows names of the registry only, and so no blocked one. -/
theorem not_mem_report_of_blocks (h : r.Blocks name) (time : Timestamp) (entry : ReportEntry) :
    (name, entry) ∉ (Report.ofRegistry time (r.build g t key?)).classes.toList := by
  intro hentry
  rcases Report.mem_of_mem_classes hentry with hin | hin
  · rw [isCss_of_blocks h] at hin
    exact Bool.noConfusion hin
  · exact not_mem_all_of_blocks h hin

theorem excludes_of_blocks (h : r.Blocks name) : (r.build g t key?).Excludes name where
  css := not_mem_css_of_blocks h
  utilities := not_mem_utilities_of_blocks h
  all := not_mem_all_of_blocks h
  report := not_mem_report_of_blocks h
  isValid := isValid_of_blocks h
  isUtility := isUtility_of_blocks h
  isCss := isCss_of_blocks h
  isUtilityOnly := isUtilityOnly_of_blocks h

/-! ## Blocked tokens -/

theorem check_ne_none_of_blocks {ignore : List NamePattern} {token : Text}
    (hblocks : r.Blocks token ∨ r.Blocks (Token.parse token).base)
    (hignored : NamePattern.anyAccepts ignore (Token.parse token).base = false) :
    (r.build g t key?).check ignore token ≠ none := by
  have hunion : (r.build g t key?).IsUnion := Registry.isUnion_ofSources key? (r.sources g t)
  rw [ne_eq, Registry.check_eq_none_of_not_ignored_iff hunion hignored]
  rintro ⟨-, hvalid, hbase⟩
  rcases hblocks with htoken | hblocked
  · rw [isValid_of_blocks htoken] at hvalid
    exact Bool.noConfusion hvalid
  · rcases hbase with hvariants | honly
    · -- without variants the base is the token
      rw [Token.base_of_variants_nil hvariants] at hblocked
      rw [isValid_of_blocks hblocked] at hvalid
      exact Bool.noConfusion hvalid
    · rw [isUtilityOnly_of_blocks hblocked] at honly
      exact Bool.noConfusion honly

/-- **Blocking is absolute.**  A name that an accepted entry of the block list
    matches is in no set of the registry and in no report on it, and every
    question about it is answered with no.  A token is found whenever the block
    list matches it as a whole or its base, and its base is not ignored. -/
theorem answers_of_blocks (r : RegistryRequest) (g : Generator) (t : FileTree)
    (key? : Option Digest) :
    (∀ name, r.Blocks name → (r.build g t key?).Excludes name)
    ∧ ∀ ignore token, r.Blocks token ∨ r.Blocks (Token.parse token).base →
        NamePattern.anyAccepts ignore (Token.parse token).base = false →
        ∃ finding, (r.build g t key?).check ignore token = some finding := by
  refine ⟨fun _ => excludes_of_blocks, ?_⟩
  intro ignore token hblocks hignored
  exact Option.ne_none_iff_exists'.mp (check_ne_none_of_blocks hblocks hignored)

/-- A request with one utility that is blocked behind a variant only. -/
def unhovered : RegistryRequest where
  files := []
  settings? := some {}
  allowlist := []
  blocklist := ["hover:flex".toList]
  ignore := []
  cwd := .ofString "."

/-- The registry of that request. -/
def hoverless : Registry :=
  unhovered.build (.fixed ⟨OrderedSet.ofList ["flex".toList], OrderedSet.ofList ["hover".toList]⟩)
    (.ofWorkingDirectory [] 0) none

theorem answers_of_blocks_behind_variants :
    unhovered.Blocks "hover:flex".toList
      ∧ hoverless.Excludes "hover:flex".toList
      ∧ ∃ finding, hoverless.check [] "hover:flex".toList = some finding := by
  have hblocks : unhovered.Blocks "hover:flex".toList :=
    (NamePattern.anyAccepts_compileAll _ _).mp (by decide +kernel)
  have habsolute := answers_of_blocks unhovered
    (.fixed ⟨OrderedSet.ofList ["flex".toList], OrderedSet.ofList ["hover".toList]⟩)
    (.ofWorkingDirectory [] 0) none
  exact ⟨hblocks, habsolute.1 _ hblocks, habsolute.2 [] _ (Or.inl hblocks) (by decide +kernel)⟩

-- The variant is accepted and the base a utility; the first variant is reported nonetheless.
example : hoverless.isUtilityOnly "flex".toList = true
    ∧ hoverless.check [] "hover:flex".toList
      = some (.invalidVariant "hover:flex".toList "hover".toList) := by
  decide +kernel

end RegistryRequest

end ClassLint
