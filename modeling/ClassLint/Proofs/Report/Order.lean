/-
  ClassLint.Proofs.Report.Order

  The order of the names in a report.  A report adds the names of the files first,
  as far as only stylesheets know them, and then what is missing of the registry.
  So it lists every name of the registry once, but those of the stylesheets alone
  come first: it has the order of the registry exactly if no such name comes
  there behind another.
-/

import ClassLint.Proofs.Catalogue.Inputs
import ClassLint.Proofs.Registry.Answers
import ClassLint.Proofs.Report.Names

namespace ClassLint

/-- A list falls into its members of one kind and the others exactly if no member
    of that kind is behind one that is not. -/
theorem filter_append_filter_eq_iff {α : Type} (p : α → Bool) (xs : List α) :
    (xs.filter p ++ xs.filter fun x => !p x) = xs ↔
      xs.Pairwise fun a b => p b = true → p a = true := by
  constructor
  · intro h
    rw [← h, List.pairwise_append]
    refine ⟨List.pairwise_of_forall_mem_list fun a ha _ _ _ => (List.mem_filter.mp ha).2,
      List.pairwise_of_forall_mem_list fun _ _ b hb hpb => ?_,
      fun a ha _ _ _ => (List.mem_filter.mp ha).2⟩
    exact absurd hpb (by simpa using (List.mem_filter.mp hb).2)
  · intro h
    induction xs with
    | nil => rfl
    | cons x xs ih =>
      obtain ⟨hx, hxs⟩ := List.pairwise_cons.mp h
      cases hp : p x with
      | true => simp [hp, ih hxs]
      | false =>
        -- behind a member that is not of the kind there is none of it
        have hnone : ∀ b ∈ xs, p b = false := fun b hb => by
          cases hb' : p b with
          | false => rfl
          | true => exact absurd (hx b hb hb') (by simp [hp])
        have hleft : xs.filter p = [] :=
          List.filter_eq_nil_iff.mpr fun b hb => by simp [hnone b hb]
        have hright : xs.filter (fun b => !p b) = xs :=
          List.filter_eq_self.mpr fun b hb => by simp [hnone b hb]
        simp [hp, hleft, hright]

/-! ## The files of a registry -/

namespace Registry

/-- Entries of the same file have the same names. -/
def Coherent (files : List (Path × OrderedSet Text)) : Prop :=
  ∀ a ∈ files, ∀ b ∈ files, a.1.same b.1 = true → a.2 = b.2

theorem Coherent.subset {files others : List (Path × OrderedSet Text)} (h : Coherent files)
    (hsubset : others ⊆ files) : Coherent others :=
  fun a ha b hb => h a (hsubset ha) b (hsubset hb)

/-- To set the names that a listed file has already changes nothing. -/
theorem setFile_of_mem {file : Path × OrderedSet Text} {files : List (Path × OrderedSet Text)}
    (hsame : ∃ entry ∈ files, entry.1.same file.1 = true)
    (hnames : ∀ entry ∈ files, entry.1.same file.1 = true → entry.2 = file.2) :
    setFile file.1 file.2 files = files := by
  induction files with
  | nil => exact absurd hsame (by simp)
  | cons entry rest ih =>
    unfold setFile
    split
    · next h => rw [← hnames entry List.mem_cons_self h]
    · next h =>
      obtain ⟨found, hfound, hfoundSame⟩ := hsame
      have hrest : found ∈ rest := (List.mem_cons.mp hfound).resolve_left
        fun heq => h (heq ▸ hfoundSame)
      rw [ih ⟨found, hrest, hfoundSame⟩ fun e he => hnames e (List.mem_cons_of_mem _ he)]

/-- A file that is not listed goes to the end. -/
theorem setFile_of_not_mem {file : Path × OrderedSet Text}
    {files : List (Path × OrderedSet Text)} (h : ¬ ∃ entry ∈ files, entry.1.same file.1 = true) :
    setFile file.1 file.2 files = files ++ [file] := by
  induction files with
  | nil => rfl
  | cons entry rest ih =>
    have hentry : ¬ entry.1.same file.1 = true := fun hsame =>
      h ⟨entry, List.mem_cons_self, hsame⟩
    have hrest : ¬ ∃ e ∈ rest, e.1.same file.1 = true := fun ⟨e, he, hsame⟩ =>
      h ⟨e, List.mem_cons_of_mem _ he, hsame⟩
    rw [setFile, if_neg hentry, ih hrest]
    rfl

/-- The names of coherent entries are first met in the same order after the
    entries of each file have been put together. -/
theorem eraseDups_flatMap_setFile {files listed : List (Path × OrderedSet Text)}
    (h : Coherent (listed ++ files)) :
    ((files.foldl (fun files file => setFile file.1 file.2 files) listed).flatMap
        fun file => file.2.toList).eraseDups
      = ((listed ++ files).flatMap fun file => file.2.toList).eraseDups := by
  induction files generalizing listed with
  | nil => rw [List.append_nil, List.foldl_nil]
  | cons file rest ih =>
    rw [List.foldl_cons]
    by_cases hsame : ∃ entry ∈ listed, entry.1.same file.1 = true
    · have hnames : ∀ entry ∈ listed, entry.1.same file.1 = true → entry.2 = file.2 :=
        fun entry hentry => h entry (List.mem_append_left _ hentry) file (by simp)
      rw [setFile_of_mem hsame hnames, ih (h.subset (by simp))]
      -- the file's names are among those of its first entry
      obtain ⟨entry, hentry, hentrySame⟩ := hsame
      have hold : file.2.toList ⊆ listed.flatMap fun file => file.2.toList := fun name hname =>
        List.mem_flatMap.mpr ⟨entry, hentry, hnames entry hentry hentrySame ▸ hname⟩
      rw [List.flatMap_append, List.flatMap_append, List.flatMap_cons,
        eraseDups_append_append_of_subset hold]
    · rw [setFile_of_not_mem hsame, ih (by rwa [List.append_assoc]), List.append_assoc]
      rfl

end Registry

namespace RegistryRequest

variable {r : RegistryRequest} {g : Generator} {t : FileTree} {key? : Option Digest}

/-- In one tree a file has the same names, however its path is spelled. -/
theorem coherent_stylesheets : Registry.Coherent (r.stylesheets t) := by
  have hread : ∀ {file}, file ∈ r.stylesheets t → file.2 = definedNames t file.1
      ∧ ∃ content m, t.stat file.1 = .ok (.file content m) := by
    intro file hfile
    obtain ⟨hmem, hnonempty⟩ := List.mem_filter.mp hfile
    obtain ⟨p, -, rfl⟩ := List.mem_map.mp hmem
    refine ⟨rfl, ?_⟩
    cases hread : t.read p with
    | ok text => exact FileTree.stat_of_read hread
    | error fault =>
      -- a file that cannot be read has no names, and is not listed
      rw [definedNames, hread] at hnonempty
      exact absurd hnonempty Bool.false_ne_true
  intro a ha b hb hsame
  obtain ⟨hnamesA, contentA, timeA, hstatA⟩ := hread ha
  obtain ⟨hnamesB, contentB, timeB, hstatB⟩ := hread hb
  have hstat : (t.stat a.1).toOption = (t.stat b.1).toOption := by
    rw [FileTree.stat_of_same_file hsame hstatA hstatB, hstatB]
  rw [hnamesA, hnamesB, definedNames_selectors, definedNames_selectors,
    FileTree.stylesheet?_congr hstat (Path.extension?_of_same hsame)]

/-- The files of the registry define the names that were gathered from them, in the
    same order. -/
theorem eraseDups_byFile_build :
    ((r.build g t key?).byFile.flatMap fun file => file.2.toList).eraseDups
      = (r.stylesheetNames t).eraseDups := by
  rw [← flatMap_stylesheets]
  exact @Registry.eraseDups_flatMap_setFile (r.stylesheets t) [] coherent_stylesheets

/-! ## The names of stylesheets alone -/

/-- Among all names those of the stylesheets alone come as the files have them. -/
theorem filter_isCss_all_build :
    (r.build g t key?).all.toList.filter (r.build g t key?).isCss
      = ((r.stylesheetNames t).filter (r.build g t key?).isCss).eraseDups := by
  have hunblocked : (fun name => (r.build g t key?).isCss name
      && !NamePattern.anyAccepts (NamePattern.compileAll r.blocklist) name)
        = (r.build g t key?).isCss := by
    funext name
    cases hcss : (r.build g t key?).isCss name with
    | false => rfl
    | true =>
      rw [anyAccepts_blocklist_eq_false.mpr (isCss_build.mp hcss).2.1]
      rfl
  have hcatalogue : (r.madeCatalogue g t).classes.toList.filter (r.build g t key?).isCss = [] :=
    List.filter_eq_nil_iff.mpr fun _ hname hcss => (isCss_build.mp hcss).2.2 (Or.inl hname)
  have hallow : (Registry.literals r.allowlist).filter (r.build g t key?).isCss = [] :=
    List.filter_eq_nil_iff.mpr fun _ hname hcss =>
      (isCss_build.mp hcss).2.2 (Or.inr (Registry.mem_literals.mp hname))
  rw [toList_all_build, filter_eraseDups, Registry.unblocked, List.filter_filter, hunblocked,
    List.filter_append, List.filter_append, hcatalogue, hallow, List.append_nil, List.append_nil]

end RegistryRequest

/-! ## The order of a report -/

namespace Report

theorem map_fst_stylesheetAdditions (registry : Registry) :
    (stylesheetAdditions registry).map Prod.fst
      = (registry.byFile.flatMap fun file => file.2.toList).filter registry.isCss := by
  unfold stylesheetAdditions
  rw [List.map_flatMap, List.filter_flatMap]
  simp only [List.map_map, Function.comp_def, List.map_id']

variable {r : RegistryRequest} {g : Generator} {t : FileTree} {key? : Option Digest}

/-- The names that the files add are those of the stylesheets alone, in the order
    of the registry. -/
theorem added_stylesheetAdditions_build :
    (OrderedSet.ofList ((stylesheetAdditions (r.build g t key?)).map Prod.fst)).toList
      = (r.build g t key?).all.toList.filter (r.build g t key?).isCss := by
  rw [RegistryRequest.filter_isCss_all_build, OrderedSet.toList_ofList,
    map_fst_stylesheetAdditions, ← eraseDups_filter_eraseDups,
    RegistryRequest.eraseDups_byFile_build, eraseDups_filter_eraseDups]

/-- **A report puts the names of stylesheets alone first.**  It lists the names of
    the registry, each once: those that only stylesheets define, and behind them
    the others, both in the order of the registry.  That is the order of the
    registry exactly if no name of the stylesheets alone comes there behind another. -/
theorem names_build (r : RegistryRequest) (g : Generator) (t : FileTree) (key? : Option Digest)
    (time : Timestamp) :
    (ofRegistry time (r.build g t key?)).names.Nodup
    ∧ (ofRegistry time (r.build g t key?)).names
        = ((r.build g t key?).all.toList.filter (r.build g t key?).isCss
          ++ (r.build g t key?).all.toList.filter fun name => !(r.build g t key?).isCss name)
    ∧ ((ofRegistry time (r.build g t key?)).names = (r.build g t key?).all.toList ↔
        (r.build g t key?).all.toList.Pairwise fun name later =>
          (r.build g t key?).isCss later = true → (r.build g t key?).isCss name = true) := by
  have hnames : (ofRegistry time (r.build g t key?)).names
      = ((r.build g t key?).all.toList.filter (r.build g t key?).isCss
        ++ (r.build g t key?).all.toList.filter fun name => !(r.build g t key?).isCss name) := by
    have hall := (r.build g t key?).all.nodup_toList
    rw [names_ofRegistry, keys_classesOf, OrderedSet.toList_insertAll,
      added_stylesheetAdditions_build]
    -- of all names those are new that are not of the stylesheets alone
    have hnew : (r.build g t key?).all.toList.removeAll
        ((r.build g t key?).all.toList.filter (r.build g t key?).isCss)
          = (r.build g t key?).all.toList.filter fun name => !(r.build g t key?).isCss name := by
      refine List.filter_congr fun name hname => ?_
      rw [Bool.eq_iff_iff]
      simp [hname]
    rw [hnew, eraseDups_of_nodup (hall.filter _)]
  refine ⟨?_, hnames, ?_⟩
  · rw [names_ofRegistry]
    exact OrderedSet.nodup_toList _
  · rw [hnames]
    exact filter_append_filter_eq_iff _ _

/-! ## A shared name in front of another -/

/-- A directory with a stylesheet of two classes. -/
def twoClasses : FileTree :=
  ((FileTree.ofWorkingDirectory [] 5).write (.ofString "a.css")
    (Text.toBytes ".shared {} .only {}".toList) 7).toOption.getD
      (.ofWorkingDirectory [] 5)

/-- A request for that stylesheet, whose first class is allowed as well. -/
def sharing : RegistryRequest where
  files := [.ofString "a.css"]
  settings? := none
  allowlist := ["shared".toList]
  blocklist := []
  ignore := []
  cwd := .ofString "."

/-- The class that the allow list has too comes first in the registry and last in
    the report. -/
theorem names_sharing_ne :
    (sharing.build .design twoClasses none).all.toList = ["shared".toList, "only".toList]
      ∧ (ofRegistry ⟨0⟩ (sharing.build .design twoClasses none)).names
        = ["only".toList, "shared".toList]
      ∧ (ofRegistry ⟨0⟩ (sharing.build .design twoClasses none)).names
        ≠ (sharing.build .design twoClasses none).all.toList := by
  decide +kernel

end Report

end ClassLint
