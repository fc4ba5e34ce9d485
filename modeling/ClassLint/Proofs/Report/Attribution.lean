/-
  ClassLint.Proofs.Report.Attribution

  Where a report says that a class comes from.  The files add a class only if
  nothing but stylesheets defines it, each file once, and the registry adds what
  is missing then.  So the entry of a class of the stylesheets has every file
  that lists the class, and the entry of a utility has none.  The statistics
  count the entries by their origin.
-/

import ClassLint.Proofs.Report.Order
import Mathlib.Data.List.Induction

namespace ClassLint

/-- A list without repetitions has a member once. -/
theorem filter_beq_of_nodup {α : Type} [BEq α] [LawfulBEq α] {xs : List α} (h : xs.Nodup) (x : α) :
    xs.filter (· == x) = if xs.contains x then [x] else [] := by
  rw [List.filter_beq, h.count]
  by_cases hx : x ∈ xs <;> simp [hx]

namespace OrderedMap

variable {α β : Type} [Ord α]

/-- The entries are the keys with their values. -/
theorem mem_toList {m : OrderedMap α β} {k : α} {v : β} :
    (k, v) ∈ m.toList ↔ k ∈ m.keys.toList ∧ m.get? k = some v := by
  constructor
  · intro h
    refine ⟨mem_keys_of_mem_toList h, ?_⟩
    unfold toList at h
    obtain ⟨l, -, hentry⟩ := List.mem_filterMap.mp h
    obtain ⟨w, hw, hpair⟩ := Option.map_eq_some_iff.mp hentry
    obtain ⟨rfl, rfl⟩ := Prod.mk.inj hpair
    exact hw
  · rintro ⟨hk, hv⟩
    unfold toList
    exact List.mem_filterMap.mpr ⟨k, hk, by rw [hv]; rfl⟩

end OrderedMap

namespace ReportClasses

/-! ## Entries -/

/-- Only the entry of the class that is added changes. -/
theorem get?_add (classes : ReportClasses) (name : Text) (origin : Origin) (file : Option Text)
    (other : Text) :
    (classes.add name origin file).get? other =
      if name = other then (classes.add name origin file).get? name else classes.get? other := by
  unfold add
  rw [OrderedMap.get?_update, OrderedMap.get?_update, if_pos rfl]

/-- A class that is added without a file keeps its entry, or has one without files. -/
theorem get?_add_none (classes : ReportClasses) (name : Text) (origin : Origin) :
    (classes.add name origin none).get? name
      = some ((classes.get? name).getD ⟨origin, []⟩) := by
  unfold add
  rw [OrderedMap.get?_update, if_pos rfl]

/-- A class that is added with a file gains the file, unless it is there. -/
theorem get?_add_some (classes : ReportClasses) (name : Text) (origin : Origin) (file : Text) :
    (classes.add name origin (some file)).get? name =
      some (let entry := (classes.get? name).getD ⟨origin, []⟩
        if entry.files.contains file then entry
        else { entry with files := entry.files ++ [file] }) := by
  unfold add
  rw [OrderedMap.get?_update, if_pos rfl]

/-- The files that a list of additions has for a class. -/
def filesFor (name : Text) (additions : List (Text × Text)) : List Text :=
  (additions.filter fun addition => addition.1 == name).map Prod.snd

/-- After additions with files a class has the files that were added for it, each
    at its first occurrence. -/
theorem get?_foldl_add_some (additions : List (Text × Text)) (name : Text) :
    ((additions.foldl (fun (classes : ReportClasses) addition =>
        ReportClasses.add classes addition.1 .stylesheet (some addition.2)) ∅).get? name) =
      if filesFor name additions = [] then none
      else some ⟨.stylesheet, (filesFor name additions).eraseDups⟩ := by
  -- by induction from the end, for an entry depends on what was added before
  induction additions using List.reverseRecOn with
  | nil => rfl
  | append_singleton additions addition ih =>
    obtain ⟨added, file⟩ := addition
    rw [List.foldl_append, List.foldl_cons, List.foldl_nil, get?_add]
    by_cases hname : added = name
    · subst hname
      have hfiles : filesFor added (additions ++ [(added, file)])
          = filesFor added additions ++ [file] := by
        simp [filesFor]
      rw [if_pos rfl, hfiles, if_neg (by simp), List.eraseDups_append, get?_add_some, ih]
      by_cases hnone : filesFor added additions = []
      · rw [if_pos hnone, hnone]
        rfl
      · rw [if_neg hnone]
        by_cases hold : file ∈ filesFor added additions
        · simp [hold, List.removeAll]
        · have hone : [file].eraseDups = [file] := rfl
          simp [hold, List.removeAll, hone]
    · have hfiles : filesFor name (additions ++ [(added, file)]) = filesFor name additions := by
        simp [filesFor, hname]
      rw [if_neg hname, ih, hfiles]

/-- Additions without files give an entry to the classes that have none. -/
theorem get?_foldl_add_none (origin : Text → Origin) (names : List Text) (classes : ReportClasses)
    (name : Text) :
    ((names.foldl (fun classes name => ReportClasses.add classes name (origin name) none)
        classes).get? name) =
      (classes.get? name).or (if name ∈ names then some ⟨origin name, []⟩ else none) := by
  induction names generalizing classes with
  | nil => simp
  | cons first rest ih =>
    rw [List.foldl_cons, ih, get?_add, get?_add_none]
    by_cases hfirst : first = name
    · subst hfirst
      cases classes.get? first <;> simp
    · simp [hfirst, Ne.symm hfirst]

end ReportClasses

/-! ## Files of a registry -/

namespace Registry

/-- The files of a registry that list a name. -/
def filesOf (registry : Registry) (name : Text) : List (Path × OrderedSet Text) :=
  registry.byFile.filter fun file => file.2.contains name

/-- Setting the names of a file brings no path but that of the file. -/
theorem path_of_mem_setFile {path : Path} {classes : OrderedSet Text}
    {files : List (Path × OrderedSet Text)} {file : Path × OrderedSet Text}
    (h : file ∈ setFile path classes files) :
    file.1 = path ∨ ∃ entry ∈ files, entry.1 = file.1 := by
  induction files with
  | nil =>
    rw [setFile, List.mem_singleton] at h
    exact Or.inl (congrArg Prod.fst h)
  | cons entry rest ih =>
    unfold setFile at h
    split at h
    · rcases List.mem_cons.mp h with rfl | hrest
      · exact Or.inr ⟨entry, List.mem_cons_self, rfl⟩
      · exact Or.inr ⟨file, List.mem_cons_of_mem _ hrest, rfl⟩
    · rcases List.mem_cons.mp h with rfl | hrest
      · exact Or.inr ⟨file, List.mem_cons_self, rfl⟩
      · obtain hpath | ⟨e, he, hpath⟩ := ih hrest
        · exact Or.inl hpath
        · exact Or.inr ⟨e, List.mem_cons_of_mem _ he, hpath⟩

/-- No two entries are for the same file. -/
def Apart (files : List (Path × OrderedSet Text)) : Prop :=
  files.Pairwise fun a b => ¬ a.1.same b.1 = true

theorem Apart.setFile {path : Path} {classes : OrderedSet Text}
    {files : List (Path × OrderedSet Text)} (h : Apart files) :
    Apart (setFile path classes files) := by
  induction files with
  | nil => exact List.pairwise_singleton _ _
  | cons entry rest ih =>
    obtain ⟨hentry, hrest⟩ := List.pairwise_cons.mp h
    unfold Registry.setFile
    split
    · exact List.pairwise_cons.mpr ⟨hentry, hrest⟩
    · next hne =>
      refine List.pairwise_cons.mpr ⟨fun file hfile => ?_, ih hrest⟩
      obtain hpath | ⟨e, he, hpath⟩ := path_of_mem_setFile hfile
      · rwa [hpath]
      · rw [← hpath]
        exact hentry e he

theorem apart_byFile (key? : Option Digest) (s : RegistrySources) :
    Apart (ofSources key? s).byFile := by
  have hfold : ∀ (files listed : List (Path × OrderedSet Text)), Apart listed →
      Apart (files.foldl (fun files file => Registry.setFile file.1 file.2 files) listed) := by
    intro files
    induction files with
    | nil => exact fun listed h => h
    | cons file rest ih => exact fun listed h => ih _ h.setFile
  exact hfold s.stylesheets [] List.Pairwise.nil

/-- The files that list a name are spelled differently. -/
theorem nodup_texts_filesOf {registry : Registry} (h : Apart registry.byFile) (name : Text) :
    ((registry.filesOf name).map fun file => file.1.text).Nodup := by
  refine List.pairwise_map.mpr ((h.filter _).imp fun hne htext => hne ?_)
  have hpath : ∀ {p q : Path}, p.text = q.text → p = q := fun heq => congrArg Path.mk heq
  rw [hpath htext]
  exact Path.same_refl _

end Registry

namespace Report

/-- Among the additions of the files those for a class of stylesheets alone are the
    files that list it. -/
theorem filesFor_stylesheetAdditions (registry : Registry) (name : Text) :
    ReportClasses.filesFor name (stylesheetAdditions registry)
      = if registry.isCss name then (registry.filesOf name).map fun file => file.1.text else [] := by
  unfold stylesheetAdditions Registry.filesOf
  induction registry.byFile with
  | nil => simp [ReportClasses.filesFor]
  | cons file rest ih =>
    have happend : ∀ a b, ReportClasses.filesFor name (a ++ b)
        = ReportClasses.filesFor name a ++ ReportClasses.filesFor name b := by
      simp [ReportClasses.filesFor]
    -- a file adds the class once, if it lists it
    have honce : file.2.toList.filter (· == name)
        = if file.2.contains name then [name] else [] := by
      have hcontains : file.2.toList.contains name = file.2.contains name := by
        rw [Bool.eq_iff_iff, List.contains_iff_mem, OrderedSet.contains_iff]
      rw [filter_beq_of_nodup file.2.nodup_toList, hcontains]
    have hfile : ReportClasses.filesFor name
        ((file.2.toList.filter registry.isCss).map fun name => (name, file.1.text))
          = if registry.isCss name && file.2.contains name then [file.1.text] else [] := by
      unfold ReportClasses.filesFor
      rw [List.filter_map, List.map_map, List.filter_comm]
      simp only [Function.comp_def]
      rw [honce]
      cases hcss : registry.isCss name <;> cases file.2.contains name <;> simp [hcss]
    rw [List.flatMap_cons, happend, hfile, ih, List.filter_cons]
    cases registry.isCss name <;> cases file.2.contains name <;> rfl

variable {r : RegistryRequest} {g : Generator} {t : FileTree} {key? : Option Digest}
  {name : Text}

/-! ## Entries of a report -/

/-- A class of stylesheets alone is listed by a file. -/
theorem filesOf_ne_nil (h : (r.build g t key?).isCss name = true) :
    (r.build g t key?).filesOf name ≠ [] := by
  have hdefined : name ∈ (r.stylesheetNames t).eraseDups :=
    List.mem_eraseDups.mpr (RegistryRequest.isCss_build.mp h).1
  rw [← @RegistryRequest.eraseDups_byFile_build r g t key?, List.mem_eraseDups] at hdefined
  obtain ⟨file, hfile, hname⟩ := List.mem_flatMap.mp hdefined
  exact List.ne_nil_of_mem (List.mem_filter.mpr ⟨hfile, (file.2.contains_iff name).mpr hname⟩)

/-- The entry of a class has the origin that the registry tells, and the files that
    list the class if only stylesheets define it. -/
theorem get?_classesOf_build (hname : name ∈ (r.build g t key?).all.toList) :
    (classesOf (r.build g t key?)).get? name = some
      ⟨originIn (r.build g t key?) name,
        if (r.build g t key?).isCss name then
          ((r.build g t key?).filesOf name).map fun file => file.1.text
        else []⟩ := by
  unfold classesOf originIn
  rw [ReportClasses.get?_foldl_add_none, ReportClasses.get?_foldl_add_some,
    filesFor_stylesheetAdditions, if_pos hname]
  cases hcss : (r.build g t key?).isCss name with
  | false => simp
  | true =>
    have hnodup := Registry.nodup_texts_filesOf (Registry.apart_byFile key? (r.sources g t)) name
    have hne : ((r.build g t key?).filesOf name).map (fun file => file.1.text) ≠ [] := by
      simpa using filesOf_ne_nil hcss
    have hdups : (((r.build g t key?).filesOf name).map fun file => file.1.text).eraseDups
        = ((r.build g t key?).filesOf name).map fun file => file.1.text :=
      eraseDups_of_nodup hnodup
    simp only [if_true, if_neg hne, hdups, Option.some_or]

/-- A name of the stylesheets is a name of the registry. -/
theorem mem_all_of_contains_css (h : (r.build g t key?).css.contains name = true) :
    name ∈ (r.build g t key?).all.toList := by
  have hunion : (r.build g t key?).all.contains name
      = ((r.build g t key?).css.contains name || (r.build g t key?).utilities.contains name) :=
    Registry.isUnion_ofSources key? (r.sources g t) name
  rw [h, Bool.true_or] at hunion
  exact ((r.build g t key?).all.contains_iff name).mp hunion

/-- A report lists the names of the registry. -/
theorem mem_keys_classesOf_build :
    name ∈ (classesOf (r.build g t key?)).keys.toList ↔ name ∈ (r.build g t key?).all.toList := by
  rw [keys_classesOf, OrderedSet.mem_insertAll, OrderedSet.mem_ofList]
  refine ⟨fun h => h.elim (fun hadded => mem_all_of_contains_css ?_) id, Or.inr⟩
  exact (Bool.and_eq_true_iff.mp (isCss_of_mem_stylesheetAdditions hadded)).1

theorem perm_keys_classesOf_build :
    (classesOf (r.build g t key?)).keys.toList.Perm (r.build g t key?).all.toList :=
  (List.perm_ext_iff_of_nodup (OrderedSet.nodup_toList _) (OrderedSet.nodup_toList _)).mpr
    fun _ => mem_keys_classesOf_build

/-- The entry of a class is determined by its name. -/
theorem eq_of_mem_classesOf_build {entry : ReportEntry}
    (h : (name, entry) ∈ (classesOf (r.build g t key?)).toList) :
    entry = ⟨originIn (r.build g t key?) name,
      if (r.build g t key?).isCss name then
        ((r.build g t key?).filesOf name).map fun file => file.1.text
      else []⟩ := by
  obtain ⟨hname, hentry⟩ := OrderedMap.mem_toList.mp h
  rw [get?_classesOf_build (mem_keys_classesOf_build.mp hname)] at hentry
  exact (Option.some.inj hentry).symm

theorem originIn_eq_stylesheet_iff {registry : Registry} :
    originIn registry name = .stylesheet ↔ registry.isCss name = true := by
  unfold originIn
  cases registry.isCss name <;> simp

/-! ## Statistics -/

theorem classes_ofRegistry (time : Timestamp) (registry : Registry) :
    (ofRegistry time registry).classes = classesOf registry := rfl

/-- There are as many entries of stylesheets as names of stylesheets that are no
    utilities. -/
theorem countP_stylesheet_build :
    ((classesOf (r.build g t key?)).toList.countP fun entry => entry.2.origin == .stylesheet)
      = ((r.build g t key?).css.toList.filter fun name =>
          !(r.build g t key?).utilities.contains name).length := by
  have horigin : ∀ entry ∈ (classesOf (r.build g t key?)).toList,
      (entry.2.origin == .stylesheet) = true ↔ (r.build g t key?).isCss entry.1 = true := by
    rintro ⟨name, entry⟩ hmem
    rw [eq_of_mem_classesOf_build hmem, beq_iff_eq]
    exact originIn_eq_stylesheet_iff
  have hsame : ((r.build g t key?).all.toList.filter (r.build g t key?).isCss).Perm
      ((r.build g t key?).css.toList.filter fun name =>
        !(r.build g t key?).utilities.contains name) := by
    refine (List.perm_ext_iff_of_nodup ((OrderedSet.nodup_toList _).filter _)
      ((OrderedSet.nodup_toList _).filter _)).mpr fun name => ?_
    rw [List.mem_filter, List.mem_filter, Registry.isCss, Bool.and_eq_true,
      ← OrderedSet.contains_iff (r.build g t key?).css]
    exact ⟨fun h => h.2, fun h => ⟨mem_all_of_contains_css h.1, h⟩⟩
  calc (classesOf (r.build g t key?)).toList.countP fun entry => entry.2.origin == .stylesheet
      = (classesOf (r.build g t key?)).toList.countP
          ((r.build g t key?).isCss ∘ Prod.fst) := List.countP_congr horigin
    _ = (classesOf (r.build g t key?)).keys.toList.countP (r.build g t key?).isCss := by
        rw [← List.countP_map, OrderedMap.map_fst_toList (isTotal_classesOf _)]
    _ = (r.build g t key?).all.toList.countP (r.build g t key?).isCss :=
        perm_keys_classesOf_build.countP_eq _
    _ = _ := by rw [List.countP_eq_length_filter, hsame.length_eq]

theorem size_classesOf (registry : Registry) :
    (classesOf registry).size = (classesOf registry).toList.length := by
  have hkeys := congrArg List.length (OrderedMap.map_fst_toList (isTotal_classesOf registry))
  rw [List.length_map] at hkeys
  rw [hkeys]
  exact Array.length_toList.symm

theorem size_classesOf_build :
    (classesOf (r.build g t key?)).size = (r.build g t key?).all.toList.length := by
  rw [← perm_keys_classesOf_build.length_eq]
  exact Array.length_toList.symm

/-- **A report attributes every class to where it comes from.**  A class has the
    origin stylesheet exactly if nothing but stylesheets defines it; it has the
    files then that list it, in the order of the registry and none of them twice,
    and there is at least one.  A utility has no files.  Of the classes that the
    statistics count, which are all names of the registry, those of stylesheets are
    the names of stylesheets that are no utilities, and the others are utilities;
    the wildcards are the listed patterns with a `*`. -/
theorem attribution_build (r : RegistryRequest) (g : Generator) (t : FileTree)
    (key? : Option Digest) (time : Timestamp) :
    (∀ name entry, (name, entry) ∈ (ofRegistry time (r.build g t key?)).classes.toList →
      (entry.origin = .stylesheet ↔ (r.build g t key?).isCss name = true)
      ∧ (entry.origin = .stylesheet →
          entry.files = ((r.build g t key?).byFile.filter fun file => file.2.contains name).map
            (fun file => file.1.text)
          ∧ entry.files.Nodup ∧ entry.files ≠ [])
      ∧ (entry.origin = .utility → entry.files = []))
    ∧ ∃ s, (ofRegistry time (r.build g t key?)).statistics? = some s
      ∧ s.classes = (r.build g t key?).all.toList.length
      ∧ s.classes = s.stylesheetClasses + s.utilityClasses
      ∧ s.stylesheetClasses = ((r.build g t key?).css.toList.filter fun name =>
          !(r.build g t key?).utilities.contains name).length
      ∧ s.wildcards = (((ofRegistry time (r.build g t key?)).allow
          ++ (ofRegistry time (r.build g t key?)).block
          ++ (ofRegistry time (r.build g t key?)).ignore).filter
            fun pattern => pattern.contains '*').length := by
  constructor
  · intro name entry hmem
    rw [eq_of_mem_classesOf_build hmem]
    refine ⟨originIn_eq_stylesheet_iff, fun horigin => ?_, fun horigin => ?_⟩
    · have hcss := originIn_eq_stylesheet_iff.mp horigin
      rw [if_pos hcss]
      refine ⟨rfl, Registry.nodup_texts_filesOf (Registry.apart_byFile _ _) _, ?_⟩
      simpa using filesOf_ne_nil hcss
    · have hcss : ¬ (r.build g t key?).isCss name = true := fun hcss => by
        simp [originIn, hcss] at horigin
      rw [if_neg hcss]
  · refine ⟨(ofRegistry time (r.build g t key?)).computeStatistics, rfl, ?_⟩
    simp only [computeStatistics, countWildcards, classes_ofRegistry]
    refine ⟨size_classesOf_build, ?_, countP_stylesheet_build, List.countP_eq_length_filter⟩
    -- the entries of stylesheets are among all entries
    rw [size_classesOf]
    exact (Nat.add_sub_of_le List.countP_le_length).symm

end Report

end ClassLint
