/-
  ClassLint.Proofs.Registry.Answers

  What a registry answers, told from what it is made from.  A name is a utility
  if the catalogue or the allow list has it, if a wildcard of the allow list
  matches it or, with a catalogue, if it is an arbitrary value.  It is valid if
  a stylesheet defines it, if it is a utility, or if it puts accepted variants
  in front of one; and the block list overrides all of these.

  A stylesheet that cannot be read or scanned counts as one that was not asked
  for, and a catalogue that cannot be made as one without names.  It still
  counts as enabled, so that arbitrary values stay valid.
-/

import ClassLint.Proofs.OrderedSet.Distinct
import ClassLint.Proofs.Registry.Union
import ClassLint.Registry.Sources

namespace ClassLint

/-! ## Lists of patterns -/

/-- An entry of the list is accepted as a pattern, and that pattern matches the name. -/
def NamePattern.Matches (entries : List Text) (name : Text) : Prop :=
  ∃ entry ∈ entries, ∃ p, compile? entry = some p ∧ p.accepts name = true

theorem NamePattern.anyAccepts_compileAll (entries : List Text) (name : Text) :
    anyAccepts (compileAll entries) name = true ↔ Matches entries name := by
  simp only [anyAccepts, compileAll, Matches, List.any_eq_true, List.mem_filterMap]
  constructor
  · rintro ⟨p, ⟨entry, hentry, hp⟩, haccepts⟩
    exact ⟨entry, hentry, p, hp, haccepts⟩
  · rintro ⟨entry, hentry, p, hp, haccepts⟩
    exact ⟨p, ⟨entry, hentry, hp⟩, haccepts⟩

theorem Registry.mem_unblocked {block : List NamePattern} {names : List Text} {name : Text} :
    name ∈ unblocked block names ↔ name ∈ names ∧ NamePattern.anyAccepts block name = false := by
  simp [unblocked]

theorem Registry.mem_literals {allowlist : List Text} {name : Text} :
    name ∈ literals allowlist ↔ name ∈ allowlist ∧ name ≠ [] ∧ '*' ∉ name := by
  simp [literals]

namespace RegistryRequest

/-! ## Sources -/

section Sources

variable (r : RegistryRequest) (g : Generator) (t : FileTree)

/-- The names that the files define, file by file, for those that can be read
    and scanned. -/
def stylesheetNames : List Text :=
  r.files.flatMap fun p =>
    match t.stylesheet? p with
    | some found => found.classes.toList
    | none => []

/-- The catalogue that was made; one without names if it is disabled or could
    not be made. -/
def madeCatalogue : Catalogue :=
  match r.settings? with
  | some s => (g.generate t s r.cwd).toOption.getD ∅
  | none => ∅

/-- A pattern of the block list matches the name. -/
def Blocks (name : Text) : Prop := NamePattern.Matches r.blocklist name

/-- The catalogue or the allow list has the name as it stands. -/
def Names (name : Text) : Prop :=
  name ∈ (r.madeCatalogue g t).classes.toList
    ∨ (name ∈ r.allowlist ∧ name ≠ [] ∧ '*' ∉ name)

/-- The name is a utility without standing in a list: a wildcard of the allow
    list matches it, or the catalogue is enabled and it is an arbitrary value. -/
def Admits (name : Text) : Prop :=
  NamePattern.Matches (Registry.wildcards r.allowlist) name
    ∨ (r.settings?.isSome = true ∧ Arbitrary.isValid name = true)

/-- The name has at least one variant, all of them are accepted, and its base is
    a utility that is not blocked. -/
def Composes (name : Text) : Prop :=
  (Token.parse name).variants ≠ []
    ∧ (∀ v ∈ (Token.parse name).variants, Variant.accepts (r.madeCatalogue g t).variants v = true)
    ∧ ¬ r.Blocks (Token.parse name).base
    ∧ (r.Names g t (Token.parse name).base ∨ r.Admits (Token.parse name).base)

end Sources

variable {r : RegistryRequest} {g : Generator} {t : FileTree} {key? : Option Digest}
  {name : Text}

theorem mem_stylesheetNames :
    name ∈ r.stylesheetNames t ↔
      ∃ p ∈ r.files, ∃ found, t.stylesheet? p = some found ∧ name ∈ found.classes.toList := by
  unfold stylesheetNames
  rw [List.mem_flatMap]
  refine exists_congr fun p => and_congr_right fun _ => ?_
  cases t.stylesheet? p <;> simp

/-! ## Names of a file -/

/-- What is found in a file, if it can be read and the extractor does not fail. -/
def names? (t : FileTree) (p : Path) (extract : Extractor := .selectors) :
    Option (OrderedSet Text) :=
  (t.read p).toOption.bind fun source => (extract p source).toOption

theorem definedNames_eq (t : FileTree) (p : Path) (extract : Extractor) :
    definedNames t p extract = (names? t p extract).getD ∅ := by
  unfold definedNames names?
  cases t.read p with
  | error fault => rfl
  | ok source =>
    simp only [Except.toOption, Option.bind_some]
    cases extract p source <;> rfl

theorem names?_selectors (t : FileTree) (p : Path) :
    names? t p = (t.stylesheet? p).map (·.classes) := by
  unfold names? FileTree.stylesheet? Extractor.selectors
  cases t.read p with
  | error fault => rfl
  | ok source =>
    simp only [Except.toOption, Option.bind_some]
    cases Stylesheet.scan p.extension? source <;> rfl

theorem definedNames_selectors (t : FileTree) (p : Path) :
    definedNames t p = match t.stylesheet? p with
      | some found => found.classes
      | none => ∅ := by
  rw [definedNames_eq, names?_selectors]
  cases t.stylesheet? p <;> rfl

/-! ## Sets of the registry -/

/-- Files that define nothing contribute nothing. -/
theorem flatMap_stylesheets :
    ((r.stylesheets t).flatMap fun file => file.2.toList) = r.stylesheetNames t := by
  unfold stylesheets stylesheetNames
  induction r.files with
  | nil => rfl
  | cons p files ih =>
    have hnames : (definedNames t p).toList = match t.stylesheet? p with
        | some found => found.classes.toList
        | none => [] := by
      rw [definedNames_selectors]
      cases t.stylesheet? p <;> rfl
    rw [List.map_cons, List.flatMap_cons, ← hnames, ← ih]
    cases hempty : (definedNames t p).isEmpty with
    | true =>
      -- a file that is left out has no names to begin with
      have hnil : (definedNames t p).toList = [] := OrderedSet.toList_of_isEmpty hempty
      rw [List.filter_cons_of_neg (by simp [hempty]), hnil, List.nil_append]
    | false => rw [List.filter_cons_of_pos (by simp [hempty]), List.flatMap_cons]

theorem catalogue?_getD : (r.catalogue? g t).getD ∅ = r.madeCatalogue g t := by
  unfold catalogue? madeCatalogue
  cases r.settings? with
  | none => rfl
  | some s =>
    simp only [Option.map_some, Option.getD_some]
    cases g.generate t s r.cwd <;> rfl

theorem isSome_catalogue? : (r.catalogue? g t).isSome = r.settings?.isSome := by
  simp [catalogue?]

/-- The names of stylesheets are those that the files define, without blocked ones. -/
theorem css_build : (r.build g t key?).css
    = OrderedSet.ofList
        (Registry.unblocked (NamePattern.compileAll r.blocklist) (r.stylesheetNames t)) := by
  rw [← flatMap_stylesheets]
  rfl

/-- The names of utilities are those of the catalogue and of the allow list,
    without blocked ones. -/
theorem utilities_build : (r.build g t key?).utilities
    = OrderedSet.ofList (Registry.unblocked (NamePattern.compileAll r.blocklist)
        ((r.madeCatalogue g t).classes.toList ++ Registry.literals r.allowlist)) := by
  rw [← catalogue?_getD]
  rfl

theorem variants_build : (r.build g t key?).variants = (r.madeCatalogue g t).variants := by
  rw [← catalogue?_getD]
  rfl

theorem catalogueEnabled_build : (r.build g t key?).catalogueEnabled = r.settings?.isSome :=
  isSome_catalogue?

theorem anyAccepts_blocklist_eq_false :
    NamePattern.anyAccepts (NamePattern.compileAll r.blocklist) name = false ↔ ¬ r.Blocks name := by
  rw [← Bool.not_eq_true, NamePattern.anyAccepts_compileAll]
  rfl

theorem isBlocked_build_eq_false :
    (r.build g t key?).isBlocked name = false ↔ ¬ r.Blocks name :=
  anyAccepts_blocklist_eq_false

theorem contains_css_build :
    (r.build g t key?).css.contains name = true ↔ name ∈ r.stylesheetNames t ∧ ¬ r.Blocks name := by
  rw [OrderedSet.contains_iff, css_build, OrderedSet.mem_ofList, Registry.mem_unblocked,
    anyAccepts_blocklist_eq_false]

theorem contains_utilities_build :
    (r.build g t key?).utilities.contains name = true ↔ r.Names g t name ∧ ¬ r.Blocks name := by
  rw [OrderedSet.contains_iff, utilities_build, OrderedSet.mem_ofList, Registry.mem_unblocked,
    List.mem_append, Registry.mem_literals, anyAccepts_blocklist_eq_false]
  rfl

/-! ## Queries -/

theorem admits_build :
    (NamePattern.anyAccepts (r.build g t key?).allow name = true
      ∨ (r.build g t key?).isArbitrary name = true) ↔ r.Admits name := by
  unfold Admits Registry.isArbitrary
  rw [catalogueEnabled_build, Bool.and_eq_true, ← NamePattern.anyAccepts_compileAll]
  rfl

theorem isUtility_build :
    (r.build g t key?).isUtility name = true ↔
      ¬ r.Blocks name ∧ (r.Names g t name ∨ r.Admits name) := by
  simp only [Registry.isUtility, Bool.and_eq_true, Bool.or_eq_true, Bool.not_eq_true',
    isBlocked_build_eq_false, or_assoc, admits_build, contains_utilities_build]
  constructor
  · rintro ⟨hblocks, ⟨hnames, -⟩ | hadmits⟩
    · exact ⟨hblocks, Or.inl hnames⟩
    · exact ⟨hblocks, Or.inr hadmits⟩
  · rintro ⟨hblocks, hnames | hadmits⟩
    · exact ⟨hblocks, Or.inl ⟨hnames, hblocks⟩⟩
    · exact ⟨hblocks, Or.inr hadmits⟩

theorem isCss_build :
    (r.build g t key?).isCss name = true ↔
      name ∈ r.stylesheetNames t ∧ ¬ r.Blocks name ∧ ¬ r.Names g t name := by
  simp only [Registry.isCss, Bool.and_eq_true, Bool.not_eq_true', ← Bool.not_eq_true,
    contains_css_build, contains_utilities_build]
  constructor
  · rintro ⟨⟨hdefined, hblocks⟩, hnames⟩
    exact ⟨hdefined, hblocks, fun h => hnames ⟨h, hblocks⟩⟩
  · rintro ⟨hdefined, hblocks, hnames⟩
    exact ⟨⟨hdefined, hblocks⟩, fun h => hnames h.1⟩

theorem isCompound_build :
    (r.build g t key?).isCompound name = true ↔ r.Composes g t name := by
  unfold Registry.isCompound Composes
  simp only [Bool.and_eq_true, Token.hasVariants_iff, Option.isNone_iff_eq_none,
    Variant.firstRejected?_eq_none_iff, isUtility_build, variants_build, and_assoc]

/-- A name that is not blocked is listed if it has a source of its own. -/
theorem isListed_build (hblocks : ¬ r.Blocks name) :
    (r.build g t key?).isListed name = true ↔
      name ∈ r.stylesheetNames t ∨ r.Names g t name ∨ r.Admits name := by
  have hall : (r.build g t key?).all.contains name
      = ((r.build g t key?).css.contains name || (r.build g t key?).utilities.contains name) :=
    Registry.isUnion_ofSources key? (r.sources g t) name
  simp only [Registry.isListed, hall, Bool.or_eq_true, or_assoc, admits_build,
    contains_css_build, contains_utilities_build, hblocks, not_false_eq_true, and_true]

theorem isValid_build :
    (r.build g t key?).isValid name = true ↔
      ¬ r.Blocks name
        ∧ (name ∈ r.stylesheetNames t ∨ r.Names g t name ∨ r.Admits name ∨ r.Composes g t name) := by
  simp only [Registry.isValid, Bool.and_eq_true, Bool.or_eq_true, Bool.not_eq_true',
    isBlocked_build_eq_false, isCompound_build]
  refine and_congr_right fun hblocks => ?_
  rw [isListed_build hblocks, or_assoc, or_assoc]

/-- All names are listed source by source, without blocked ones. -/
theorem toList_all_build :
    (r.build g t key?).all.toList
      = (Registry.unblocked (NamePattern.compileAll r.blocklist)
          (r.stylesheetNames t ++ (r.madeCatalogue g t).classes.toList
            ++ Registry.literals r.allowlist)).eraseDups := by
  have hall : (r.build g t key?).all = OrderedSet.ofList
      ((r.build g t key?).css.toList ++ (r.build g t key?).utilities.toList) := rfl
  rw [hall, css_build, utilities_build, OrderedSet.toList_ofList, OrderedSet.toList_ofList,
    OrderedSet.toList_ofList, eraseDups_eraseDups_append]
  simp only [Registry.unblocked, List.filter_append, List.append_assoc]

/-! ## Sources that fail -/

/-- Files that cannot be read, and files that the extractor rejects, might as well
    be missing from the request. -/
theorem build_filter_files (extract : Extractor) :
    { r with files := r.files.filter fun p => (names? t p extract).isSome }.build g t key? extract
      = r.build g t key? extract := by
  have hkept : ∀ p, (!(definedNames t p extract).isEmpty && (names? t p extract).isSome)
      = !(definedNames t p extract).isEmpty := by
    intro p
    rw [definedNames_eq]
    cases names? t p extract with
    | none => rfl
    | some found => simp
  have hstylesheets :
      { r with files := r.files.filter fun p => (names? t p extract).isSome }.stylesheets t extract
        = r.stylesheets t extract := by
    unfold stylesheets
    simp only [List.filter_map, List.filter_filter, Function.comp_def, hkept]
  unfold build sources
  rw [hstylesheets]
  rfl

theorem build_filter_stylesheets :
    { r with files := r.files.filter fun p => (t.stylesheet? p).isSome }.build g t key?
      = r.build g t key? := by
  have hsame : ∀ p, (names? t p).isSome = (t.stylesheet? p).isSome := fun p => by
    rw [names?_selectors, Option.isSome_map]
  simpa only [hsame] using build_filter_files (r := r) (g := g) (t := t) .selectors

/-- Of the generator only the catalogue counts that it made, if any. -/
theorem build_fixed_madeCatalogue :
    r.build (.fixed (r.madeCatalogue g t)) t key? = r.build g t key? := by
  have hcatalogue : r.catalogue? (.fixed (r.madeCatalogue g t)) t = r.catalogue? g t := by
    unfold catalogue? madeCatalogue
    cases r.settings? with
    | none => rfl
    | some s =>
      simp only [Option.map_some]
      cases g.generate t s r.cwd <;> rfl
  unfold build sources
  rw [hcatalogue]

/-- **A registry answers from its sources.**  A name is valid exactly if it is not
    blocked, and a stylesheet defines it, the catalogue or the allow list has it,
    a wildcard or an enabled catalogue admits it, or it puts accepted variants
    in front of a utility that is not blocked.  All names are those of the
    stylesheets, the catalogue and the allow list, in this order and each at its
    first occurrence.  Sources that fail make no difference: such stylesheets may
    be left out, and a catalogue that cannot be made is one without names. -/
theorem build_answers (r : RegistryRequest) (g : Generator) (t : FileTree)
    (key? : Option Digest) :
    (∀ name, (r.build g t key?).isValid name = true ↔
      ¬ r.Blocks name
        ∧ (name ∈ r.stylesheetNames t ∨ r.Names g t name ∨ r.Admits name ∨ r.Composes g t name))
    ∧ (r.build g t key?).all.toList
      = (Registry.unblocked (NamePattern.compileAll r.blocklist)
          (r.stylesheetNames t ++ (r.madeCatalogue g t).classes.toList
            ++ Registry.literals r.allowlist)).eraseDups
    ∧ { r with files := r.files.filter fun p => (t.stylesheet? p).isSome }.build g t key?
      = r.build g t key?
    ∧ r.build (.fixed (r.madeCatalogue g t)) t key? = r.build g t key?
    ∧ (r.build g t key?).catalogueEnabled = r.settings?.isSome :=
  ⟨fun _ => isValid_build, toList_all_build, build_filter_stylesheets, build_fixed_madeCatalogue,
    catalogueEnabled_build⟩

end RegistryRequest

end ClassLint
