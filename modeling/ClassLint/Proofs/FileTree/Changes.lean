/-
  ClassLint.Proofs.FileTree.Changes

  What a change of a tree leaves as it was.  A change puts something at one place
  or takes it away, and besides touches the directory around the place.  So what
  stands at the other places is the same but for the times of directories, and as
  long as directories stay, paths lead where they led before.

  In a grounded tree everything stands in a directory, and so nothing is lost
  below a file that is taken away.  Every change leaves a grounded tree grounded.
-/

import ClassLint.Proofs.FileTree.Spelling
import Mathlib.Data.List.Induction

namespace ClassLint

/-- The same file or directory, whenever a directory was changed last. -/
def Node.untimed : Node → Node
  | file content modified => file content modified
  | directory _ => directory 0

namespace FileTree

variable {t u : FileTree} {place q : Place} {node : Node}

/-! ## What stands at a place -/

/-- What stands at a place, but for the time of a directory. -/
def outline (t : FileTree) (place : Place) : Option Node := (t.node? place).map Node.untimed

/-- A directory stands at the place. -/
def HasDirectory (t : FileTree) (place : Place) : Prop :=
  t.outline place = some (.directory 0)

/-- The file at a place, with its content and the time of its last change. -/
def fileAt? (t : FileTree) (place : Place) : Option Node := (t.outline place).filter Node.isFile

theorem hasDirectory_root (t : FileTree) : t.HasDirectory [] := rfl

theorem hasDirectory_iff : t.HasDirectory place ↔ ∃ m, t.node? place = some (.directory m) := by
  unfold HasDirectory outline
  cases t.node? place with
  | none => simp
  | some node => cases node <;> simp [Node.untimed]

theorem outline_eq_file_iff {content : ByteArray} {m : Int} :
    t.outline place = some (.file content m) ↔ t.node? place = some (.file content m) := by
  unfold outline
  cases t.node? place with
  | none => simp
  | some node => cases node <;> simp [Node.untimed]

/-! ## Changes at a place -/

theorem node?_set (hplace : place ≠ []) :
    (t.set place node).node? q = if q = place then some node else t.node? q := by
  have hnonempty : place.isEmpty = false := by simpa using hplace
  unfold set node?
  rw [hnonempty]
  by_cases hroot : q.isEmpty = true
  · have hne : q ≠ place := by
      rintro rfl
      exact absurd hroot (by simp [hnonempty])
    simp [hroot, hne]
  · simp only [hroot, Bool.false_eq_true, if_false, Std.TreeMap.getElem?_insert,
      Std.LawfulEqOrd.compare_eq_iff_eq]
    exact if_congr eq_comm rfl rfl

theorem outline_set (hplace : place ≠ []) :
    (t.set place node).outline q = if q = place then some node.untimed else t.outline q := by
  unfold outline
  rw [node?_set hplace]
  split <;> rfl

@[simp]
theorem outline_touchDirectory : (t.touchDirectory place).outline q = t.outline q := by
  unfold touchDirectory
  split
  · next m hnode =>
    have hnow : ∀ (u : FileTree) (now : Int), ({ u with now := now } : FileTree).outline q
        = u.outline q := fun _ _ => rfl
    rw [hnow]
    by_cases hplace : place = []
    · subst hplace
      rfl
    · rw [outline_set hplace]
      split
      · next hq => rw [hq, outline, hnode]; rfl
      · rfl
  · rfl

theorem outline_put (hplace : place ≠ []) :
    (t.put place node).outline q = if q = place then some node.untimed else t.outline q := by
  unfold put
  split
  · exact outline_set hplace
  · rw [outline_touchDirectory, outline_set hplace]

theorem outline_erase (hplace : place ≠ []) :
    (t.erase place).outline q = if place.isPrefixOf q then none else t.outline q := by
  unfold erase
  rw [outline_touchDirectory]
  unfold outline node?
  by_cases hroot : q.isEmpty = true
  · have hq : q = [] := by simpa using hroot
    have hbelow : ¬ place.isPrefixOf q = true := by
      rw [hq, List.isPrefixOf_iff_prefix, List.prefix_nil]
      exact hplace
    rw [if_neg hbelow]
    simp only [hroot, if_true]
  · simp only [hroot, Bool.false_eq_true, if_false, Std.TreeMap.getElem?_filter']
    cases place.isPrefixOf q with
    | true => cases t.nodes[q]? <;> simp [Option.filter]
    | false => cases t.nodes[q]? <;> simp [Option.filter]

theorem outline_erase_root (hq : q ≠ []) : (t.erase []).outline q = none := by
  have hempty : q.isEmpty = false := by simpa using hq
  unfold erase
  rw [outline_touchDirectory]
  unfold outline node?
  simp only [hempty, Bool.false_eq_true, if_false, Std.TreeMap.getElem?_filter']
  cases t.nodes[q]? <;> simp [Option.filter]

@[simp]
theorem workingDirectory_touchDirectory :
    (t.touchDirectory place).workingDirectory = t.workingDirectory := by
  unfold touchDirectory set
  split
  · split <;> rfl
  · rfl

@[simp]
theorem workingDirectory_put : (t.put place node).workingDirectory = t.workingDirectory := by
  have hset : (t.set place node).workingDirectory = t.workingDirectory := by
    unfold set
    split <;> rfl
  unfold put
  split
  · exact hset
  · rw [workingDirectory_touchDirectory, hset]

@[simp]
theorem workingDirectory_erase : (t.erase place).workingDirectory = t.workingDirectory :=
  workingDirectory_touchDirectory

/-! ## Paths in a changed tree -/

/-- The place that a step leads to from a directory. -/
def next (place : Place) (piece : Text) : Place :=
  if Path.isIdle piece then place
  else if piece = ['.', '.'] then place.dropLast
  else place ++ [piece]

theorem step_eq_ok_iff {piece : Text} {target : Place} :
    t.step place piece = .ok target ↔ t.HasDirectory place ∧ target = next place piece := by
  rw [hasDirectory_iff]
  unfold step next
  cases t.node? place with
  | none => simp
  | some node =>
    cases node with
    | file => simp
    | directory m =>
      simp only [Option.some.injEq, Node.directory.injEq, exists_eq', true_and]
      split
      · simp [eq_comm]
      · split <;> simp [eq_comm]

/-- The directories of a tree are directories of another one, which has the same
    working directory. -/
structure Keeps (t u : FileTree) : Prop where
  directory : ∀ place, t.HasDirectory place → u.HasDirectory place
  home : u.workingDirectory = t.workingDirectory

theorem Keeps.refl (t : FileTree) : t.Keeps t := ⟨fun _ h => h, rfl⟩

theorem Keeps.trans {v : FileTree} (h : t.Keeps u) (h' : u.Keeps v) : t.Keeps v :=
  ⟨fun place hplace => h'.directory place (h.directory place hplace), h'.home.trans h.home⟩

/-- Steps lead where they led. -/
theorem Keeps.walk {pieces : List Text} {target : Place} (h : t.Keeps u)
    (hwalk : t.walk place pieces = .ok target) : u.walk place pieces = .ok target := by
  induction pieces generalizing place with
  | nil => exact hwalk
  | cons piece rest ih =>
    rw [walk_cons] at hwalk ⊢
    cases hstep : t.step place piece with
    | error fault =>
      rw [hstep] at hwalk
      exact absurd hwalk (by simp [bind, Except.bind])
    | ok reached =>
      obtain ⟨hplace, hreached⟩ := step_eq_ok_iff.mp hstep
      rw [step_eq_ok_iff.mpr ⟨h.directory place hplace, hreached⟩]
      rw [hstep] at hwalk
      exact ih hwalk

theorem Keeps.start (h : t.Keeps u) (p : Path) : u.start p = t.start p := by
  unfold FileTree.start
  rw [h.home]

/-- A path leads where it led. -/
theorem Keeps.locate {p : Path} (h : t.Keeps u) (hp : t.locate p = .ok place) :
    u.locate p = .ok place := by
  unfold FileTree.locate at hp ⊢
  split at hp
  · exact absurd hp (by simp)
  · next hempty =>
    rw [if_neg hempty, h.start]
    exact h.walk hp

/-- To put something at a place that is no directory keeps the directories, and so
    does to put a directory there. -/
theorem keeps_put (hplace : place ≠ [])
    (hfree : ¬ t.HasDirectory place ∨ node.untimed = .directory 0) : t.Keeps (t.put place node) := by
  refine ⟨fun q hq => ?_, workingDirectory_put⟩
  unfold HasDirectory at hq ⊢
  rw [outline_put hplace]
  split
  · next heq =>
    subst heq
    rw [hfree.resolve_left fun hno => hno hq]
  · exact hq

/-! ## Grounded trees -/

/-- What stands in the tree stands in a directory. -/
def Grounded (t : FileTree) : Prop :=
  ∀ place, (t.outline place).isSome = true → t.HasDirectory place.dropLast

/-- Nothing stands below a file. -/
theorem Grounded.outline_below_file (h : t.Grounded) {content : ByteArray} {m : Int}
    (hfile : t.outline place = some (.file content m)) {rest : Place} (hrest : rest ≠ []) :
    t.outline (place ++ rest) = none := by
  -- by induction from the end, towards the file
  induction rest using List.reverseRecOn with
  | nil => exact absurd rfl hrest
  | append_singleton rest name ih =>
    by_contra hsome
    have hparent : t.HasDirectory (place ++ rest) := by
      have := h (place ++ (rest ++ [name])) (Option.isSome_iff_ne_none.mpr hsome)
      rwa [← List.append_assoc, List.dropLast_concat] at this
    unfold HasDirectory at hparent
    by_cases hnil : rest = []
    · rw [hnil, List.append_nil, hfile] at hparent
      exact absurd hparent (by simp)
    · rw [ih hnil] at hparent
      exact absurd hparent (by simp)

theorem Grounded.put (h : t.Grounded) (hplace : place ≠ [])
    (hparent : t.HasDirectory place.dropLast)
    (hfree : ¬ t.HasDirectory place ∨ node.untimed = .directory 0) :
    (t.put place node).Grounded := by
  intro q hq
  refine (keeps_put hplace hfree).directory _ ?_
  rw [outline_put hplace] at hq
  split at hq
  · next heq => rwa [heq]
  · exact h q hq

theorem Grounded.erase (h : t.Grounded) (place : Place) : (t.erase place).Grounded := by
  intro q hq
  by_cases hplace : place = []
  · -- of a tree without its root nothing else is left
    have hq : q = [] := by
      by_contra hne
      rw [hplace, outline_erase_root hne] at hq
      exact absurd hq (by simp)
    rw [hq]
    exact hasDirectory_root _
  rw [outline_erase hplace] at hq
  split at hq
  · exact absurd hq (by simp)
  · next hkept =>
    -- what is around a kept place is kept
    have hparent : ¬ place.isPrefixOf q.dropLast = true := by
      rw [List.isPrefixOf_iff_prefix] at hkept ⊢
      exact fun hbelow => hkept (hbelow.trans (List.dropLast_prefix q))
    unfold HasDirectory
    rw [outline_erase hplace, if_neg hparent]
    exact h q hq

/-- To take a file away changes nothing else. -/
theorem Grounded.outline_erase_file (h : t.Grounded) {content : ByteArray} {m : Int}
    (hfile : t.outline place = some (.file content m)) :
    (t.erase place).outline q = if q = place then none else t.outline q := by
  have hplace : place ≠ [] := by
    rintro rfl
    exact absurd ((hasDirectory_root t).symm.trans hfile) (by simp)
  rw [outline_erase hplace]
  by_cases hbelow : place.isPrefixOf q = true
  · obtain ⟨rest, rfl⟩ := List.isPrefixOf_iff_prefix.mp hbelow
    by_cases hrest : rest = []
    · simp [hrest]
    · rw [if_pos hbelow, h.outline_below_file hfile hrest, ite_self]
  · have hne : q ≠ place := by
      rintro rfl
      exact hbelow (List.isPrefixOf_iff_prefix.mpr (List.prefix_refl q))
    rw [if_neg hbelow, if_neg hne]

theorem Grounded.keeps_erase_file (h : t.Grounded) {content : ByteArray} {m : Int}
    (hfile : t.outline place = some (.file content m)) : t.Keeps (t.erase place) := by
  refine ⟨fun q hq => ?_, workingDirectory_erase⟩
  have hne : q ≠ place := by
    rintro rfl
    exact absurd (hq.symm.trans hfile) (by simp)
  unfold HasDirectory
  rw [h.outline_erase_file hfile, if_neg hne]
  exact hq

/-! ## Changes at the end of a path -/

/-- A place for something new: it has a name, and a directory is around it. -/
structure Takes (t : FileTree) (place : Place) : Prop where
  named : place ≠ []
  parent : t.HasDirectory place.dropLast

/-- A path is split into the directory that its last step is taken in and that step. -/
theorem locate_of_splitLast {p : Path} {directory : Place} {last : Text}
    (h : t.splitLast p = .ok (directory, last)) (hnamed : ¬ isNameless last = true) :
    t.locate p = .ok (directory ++ [last]) ∧ t.Takes (directory ++ [last]) := by
  have hidle : Path.isIdle last = false ∧ last ≠ ['.', '.'] := by
    simpa [isNameless, not_or] using hnamed
  have hne : Path.pieces p.text ≠ [] := Text.split_ne_nil _ _
  unfold splitLast at h
  cases hwalk : t.walk (t.start p) (Path.pieces p.text).dropLast with
  | error fault => simp [hwalk, bind, Except.bind] at h
  | ok reached =>
    cases hstep : t.step reached [] with
    | error fault => simp [hwalk, hstep, bind, Except.bind] at h
    | ok stayed =>
      simp only [hwalk, hstep, bind, Except.bind, Except.ok.injEq, Prod.mk.injEq] at h
      obtain ⟨rfl, hlast⟩ := h
      have hdirectory : t.HasDirectory reached := (step_eq_ok_iff.mp hstep).1
      have hpieces : (Path.pieces p.text).dropLast ++ [last] = Path.pieces p.text := by
        rw [← hlast, List.getLastD_eq_getLast?, List.getLast?_eq_some_getLast hne]
        exact List.dropLast_concat_getLast hne
      have hempty : p.text.isEmpty = false := by
        -- the only piece of the empty path is idle
        cases htext : p.text with
        | nil =>
          have hnil : last = [] := by rw [← hlast, htext]; rfl
          exact absurd hidle.1 (by rw [hnil]; decide)
        | cons => rfl
      refine ⟨?_, by simp, by rwa [List.dropLast_concat]⟩
      unfold locate
      rw [hempty, if_neg Bool.false_ne_true, ← hpieces, walk_append, hwalk]
      refine (walk_singleton t reached last).trans (step_eq_ok_iff.mpr ⟨hdirectory, ?_⟩)
      simp [next, hidle]

/-- A file is put at the end of the path, where no directory stands. -/
theorem filePlace_eq_ok {p : Path} (h : t.filePlace p = .ok place) :
    t.locate p = .ok place ∧ t.Takes place ∧ ¬ t.HasDirectory place := by
  unfold filePlace at h
  split at h
  · exact absurd h (by simp)
  · cases hsplit : t.splitLast p with
    | error fault => simp [hsplit, bind, Except.bind] at h
    | ok parts =>
      obtain ⟨directory, last⟩ := parts
      simp only [hsplit, bind, Except.bind] at h
      split at h
      · exact absurd h (by simp)
      · next hnamed =>
        obtain ⟨hlocate, htakes⟩ := locate_of_splitLast hsplit hnamed
        split at h
        · exact absurd h (by simp)
        · next hno =>
          obtain rfl := Except.ok.inj h
          refine ⟨hlocate, htakes, fun hdirectory => ?_⟩
          obtain ⟨m', hnode⟩ := hasDirectory_iff.mp hdirectory
          exact hno m' hnode

theorem write_eq_ok {p : Path} {content : ByteArray} {m : Int} (h : t.write p content m = .ok u) :
    ∃ place, t.filePlace p = .ok place ∧ u = t.put place (.file content m) := by
  unfold write at h
  cases hplace : t.filePlace p with
  | error fault => simp [hplace, bind, Except.bind] at h
  | ok place =>
    simp only [hplace, bind, Except.bind] at h
    exact ⟨place, rfl, (Except.ok.inj h).symm⟩

/-- Making a directory puts it at the end of the path, where nothing stands. -/
theorem makeDirectory_eq_ok {p : Path} (h : t.makeDirectory p = .ok u) :
    ∃ place, t.Takes place ∧ t.outline place = none ∧ u = t.put place (.directory t.now) := by
  unfold makeDirectory at h
  split at h
  · exact absurd h (by simp)
  · cases hsplit : t.splitLast (dropSlashes p) with
    | error fault => simp [hsplit, bind, Except.bind] at h
    | ok parts =>
      obtain ⟨directory, last⟩ := parts
      simp only [hsplit, bind, Except.bind] at h
      split at h
      · exact absurd h (by simp)
      · next hnamed =>
        obtain ⟨-, htakes⟩ := locate_of_splitLast hsplit hnamed
        refine ⟨directory ++ [last], htakes, ?_⟩
        split at h
        · exact absurd h (by simp)
        · next hnone =>
          have hnone : t.node? (directory ++ [last]) = none := by simpa using hnone
          exact ⟨by rw [outline, hnone]; rfl, (Except.ok.inj h).symm⟩

/-- A path that does not end with a slash has none to be dropped. -/
theorem dropSlashes_eq {p : Path} (h : ¬ p.text.getLast? = some '/') : dropSlashes p = p := by
  unfold dropSlashes
  cases hreverse : p.text.reverse with
  | nil =>
    have htext : p.text = [] := by simpa using hreverse
    cases p
    simp_all
  | cons c rest =>
    have hc : ¬ (c == '/') = true := by
      rw [← List.head?_reverse, hreverse] at h
      simpa using h
    rw [List.dropWhile_cons, if_neg hc, ← hreverse, List.reverse_reverse]

/-- Renaming takes a file away and puts it at the end of the other path, where no
    directory stands. -/
theorem rename_eq_ok {source target : Path} (h : t.rename source target = .ok u) :
    ∃ origin place content m, t.locate source = .ok origin
      ∧ t.node? origin = some (.file content m) ∧ t.locate target = .ok place ∧ t.Takes place
      ∧ ¬ t.HasDirectory place
      ∧ u = if place = origin then t else (t.put place (.file content m)).erase origin := by
  unfold rename at h
  cases horigin : t.locate source with
  | error fault => simp [horigin, bind, Except.bind] at h
  | ok origin =>
    cases hsplit : t.splitLast (dropSlashes target) with
    | error fault => simp [horigin, hsplit, bind, Except.bind] at h
    | ok parts =>
      obtain ⟨directory, last⟩ := parts
      simp only [horigin, hsplit, bind, Except.bind] at h
      split at h
      · exact absurd h (by simp)
      · exact absurd h (by simp)
      · next file hno hnode =>
        split at h
        · exact absurd h (by simp)
        · next hnamed =>
          split at h
          · exact absurd h (by simp)
          · next hslash =>
            rw [dropSlashes_eq hslash] at hsplit
            obtain ⟨hlocate, htakes⟩ := locate_of_splitLast hsplit hnamed
            cases file with
            | directory m => exact absurd rfl (hno m)
            | file content m =>
              refine ⟨origin, directory ++ [last], content, m, rfl, hnode, hlocate, htakes, ?_⟩
              split at h
              · exact absurd h (by simp)
              · next hfree =>
                refine ⟨fun hdirectory => ?_, ?_⟩
                · obtain ⟨m', hnode⟩ := hasDirectory_iff.mp hdirectory
                  exact hfree m' hnode
                · split at h
                  · next heq => rw [if_pos heq, Except.ok.inj h]
                  · next hne => rw [if_neg hne, Except.ok.inj h]

/-! ## Changes of a grounded tree -/

theorem Grounded.write {p : Path} {content : ByteArray} {m : Int} (h : t.Grounded)
    (hu : t.write p content m = .ok u) : u.Grounded := by
  obtain ⟨place, hplace, rfl⟩ := write_eq_ok hu
  obtain ⟨-, htakes, hfree⟩ := filePlace_eq_ok hplace
  exact h.put htakes.named htakes.parent (Or.inl hfree)

theorem Grounded.makeDirectory {p : Path} (h : t.Grounded) (hu : t.makeDirectory p = .ok u) :
    u.Grounded := by
  obtain ⟨place, htakes, -, rfl⟩ := makeDirectory_eq_ok hu
  exact h.put htakes.named htakes.parent (Or.inr rfl)

theorem Grounded.rename {source target : Path} (h : t.Grounded)
    (hu : t.rename source target = .ok u) : u.Grounded := by
  obtain ⟨origin, place, content, m, -, -, -, htakes, hfree, rfl⟩ := rename_eq_ok hu
  split
  · exact h
  · exact (h.put htakes.named htakes.parent (Or.inl hfree)).erase origin

theorem Grounded.remove {p : Path} (h : t.Grounded) (hu : t.remove p = .ok u) : u.Grounded := by
  unfold FileTree.remove at hu
  cases hplace : t.locate p with
  | error fault => simp [hplace, bind, Except.bind] at hu
  | ok place =>
    simp only [hplace, bind, Except.bind] at hu
    split at hu
    · exact absurd hu (by simp)
    · rw [← Except.ok.inj hu]
      exact h.erase place

/-- Another time changes nothing about what is a directory. -/
theorem Grounded.touch {p : Path} {m : Int} (h : t.Grounded) (hu : t.touch p m = .ok u) :
    u.Grounded := by
  unfold FileTree.touch at hu
  cases hplace : t.locate p with
  | error fault => simp [hplace, bind, Except.bind] at hu
  | ok place =>
    simp only [hplace, bind, Except.bind] at hu
    split at hu
    · exact absurd hu (by simp)
    · next node hnode =>
      rw [← Except.ok.inj hu]
      by_cases hroot : place = []
      · subst hroot
        exact h
      · have hsame : t.outline place = some node.untimed := by rw [outline, hnode]; rfl
        intro q hq
        have hold : (t.outline q).isSome = true := by
          rw [outline_set hroot] at hq
          split at hq
          · next heq => rw [heq, hsame]; rfl
          · exact hq
        have hparent := h q hold
        unfold HasDirectory at hparent ⊢
        rw [outline_set hroot]
        split
        · next heq =>
          rw [heq, hsame] at hparent
          cases node with
          | file => exact absurd hparent (by simp [Node.untimed])
          | directory => rfl
        · exact hparent

/-- Without anything else there are the directories that lead to the working directory. -/
theorem outline_ofWorkingDirectory (place : Place) (now : Int) (q : Place) :
    (ofWorkingDirectory place now).outline q
      = if q.isPrefixOf place then some (.directory 0) else none := by
  have hnodes : ∀ (depths : List Nat) (nodes : Std.TreeMap Place Node) (q : Place),
      (depths.foldl (fun nodes depth => nodes.insert (place.take (depth + 1)) (.directory now))
        nodes)[q]? = if ∃ depth ∈ depths, place.take (depth + 1) = q then some (.directory now)
          else nodes[q]? := by
    intro depths
    induction depths with
    | nil => simp
    | cons depth rest ih =>
      intro nodes q
      simp only [List.foldl_cons, ih, Std.TreeMap.getElem?_insert,
        Std.LawfulEqOrd.compare_eq_iff_eq]
      by_cases hrest : ∃ d ∈ rest, place.take (d + 1) = q
      · simp [hrest]
      · by_cases hfirst : place.take (depth + 1) = q <;> simp [hfirst, hrest]
  unfold outline node?
  by_cases hroot : q = []
  · subst hroot
    rfl
  · have hempty : q.isEmpty = false := by simpa using hroot
    have hbeginning : (∃ depth ∈ List.range place.length, place.take (depth + 1) = q)
        ↔ q.isPrefixOf place = true := by
      rw [List.isPrefixOf_iff_prefix]
      constructor
      · rintro ⟨depth, -, rfl⟩
        exact List.take_prefix _ _
      · intro hbelow
        have hpos : 0 < q.length := List.length_pos_iff.mpr hroot
        have hle := hbelow.length_le
        refine ⟨q.length - 1, List.mem_range.mpr (by omega), ?_⟩
        rw [Nat.sub_add_cancel hpos]
        exact (List.prefix_iff_eq_take.mp hbelow).symm
    have hnode : (ofWorkingDirectory place now).nodes[q]?
        = if q.isPrefixOf place then some (.directory now) else none := by
      rw [ofWorkingDirectory, hnodes]
      exact if_congr hbeginning rfl rfl
    rw [hempty, if_neg Bool.false_ne_true, hnode]
    split <;> rfl

theorem grounded_ofWorkingDirectory (place : Place) (now : Int) :
    (ofWorkingDirectory place now).Grounded := by
  intro q hq
  rw [outline_ofWorkingDirectory] at hq
  split at hq
  · next hbeginning =>
    unfold HasDirectory
    rw [outline_ofWorkingDirectory, if_pos]
    rw [List.isPrefixOf_iff_prefix] at hbeginning ⊢
    exact (List.dropLast_prefix q).trans hbeginning
  · exact absurd hq (by simp)

end FileTree

end ClassLint
