/-
  ClassLint.Proofs.Command.Output

  What a run that writes a report does to the files, on a device that may refuse
  any step of it.  The report is written to a draft beside its place and moved
  there.  So a run that succeeds has put the report in its place, and the draft is
  gone, with the file that stood there before if there was one.  A run that fails
  before it makes the draft leaves the files as they were.  If it fails later, the
  draft stays, with as much of the report as was written.
-/

import ClassLint.Command.Run
import ClassLint.Proofs.Engine.Session
import ClassLint.Proofs.FileTree.Changes
import ClassLint.Proofs.Text.Utf8

namespace ClassLint

/-- A step is passed if it succeeds and is not refused. -/
theorem Device.pass_eq_ok {α : Type} {refusal? : Option FileFault} {step : Except FileFault α}
    {a : α} (h : Device.pass refusal? step = .ok a) : step = .ok a ∧ refusal? = none := by
  cases step with
  | error fault => exact absurd h (by simp [pass])
  | ok b =>
    cases refusal? with
    | none => exact ⟨h, rfl⟩
    | some fault => exact absurd h (by simp [pass])

namespace FileTree

variable {t u : FileTree} {p : Path}

/-- A file that stands at the end of a path is read there. -/
theorem read_of_outline {place : Place} {text : Text} {m : Int} (hplace : t.locate p = .ok place)
    (hfile : t.outline place = some (.file (Text.toBytes text) m)) : t.read p = .ok text := by
  have hstat : t.stat p = .ok (.file (Text.toBytes text) m) := by
    rw [stat_eq, hplace]
    simp [bind, Except.bind, outline_eq_file_iff.mp hfile]
  unfold read
  rw [hstat]
  simp [bind, Except.bind, Text.ofBytes?_toBytes]

/-- Every change leaves a grounded tree grounded. -/
theorem Grounded.apply (h : t.Grounded) (change : FileChange) : (t.apply change).Grounded := by
  have hchanged : ∀ {changed : Except FileFault FileTree},
      (∀ u, changed = .ok u → u.Grounded) → (changed.toOption.getD t).Grounded := by
    intro changed hchanged
    cases changed with
    | error fault => exact h
    | ok u => exact hchanged u rfl
  unfold FileTree.apply
  cases change with
  | write p content m => exact hchanged fun u hu => h.write hu
  | makeDirectory p => exact hchanged fun u hu => h.makeDirectory hu
  | rename source target => exact hchanged fun u hu => h.rename hu
  | remove p => exact hchanged fun u hu => h.remove hu
  | touch p m => exact hchanged fun u hu => h.touch hu

/-- Whatever is changed in an empty tree, it stays grounded. -/
theorem grounded_changes (changes : List FileChange) (place : Place) (now : Int) :
    (changes.foldl FileTree.apply (.ofWorkingDirectory place now)).Grounded := by
  have hrun : ∀ (changes : List FileChange) (t : FileTree), t.Grounded →
      (changes.foldl FileTree.apply t).Grounded := by
    intro changes
    induction changes with
    | nil => exact fun _ h => h
    | cons change rest ih => exact fun t h => ih _ (h.apply change)
  exact hrun changes _ (grounded_ofWorkingDirectory place now)

/-! ## Making directories -/

/-- At most directories are new in the other tree. -/
structure Widens (t u : FileTree) : Prop where
  files : ∀ q, u.fileAt? q = t.fileAt? q
  keeps : t.Keeps u
  grounded : t.Grounded → u.Grounded

theorem Widens.refl (t : FileTree) : t.Widens t := ⟨fun _ => rfl, .refl t, id⟩

theorem Widens.trans {v : FileTree} (h : t.Widens u) (h' : u.Widens v) : t.Widens v :=
  ⟨fun q => (h'.files q).trans (h.files q), h.keeps.trans h'.keeps, h'.grounded ∘ h.grounded⟩

theorem widens_makeDirectory (h : t.makeDirectory p = .ok u) : t.Widens u := by
  refine ⟨fun q => ?_, ?_, fun hgrounded => hgrounded.makeDirectory h⟩ <;>
    obtain ⟨place, htakes, hnone, rfl⟩ := makeDirectory_eq_ok h
  · unfold fileAt?
    rw [outline_put htakes.named]
    split
    · next heq => rw [heq, hnone]; rfl
    · rfl
  · exact keeps_put htakes.named (Or.inr rfl)

theorem widens_ensureDirectory (t : FileTree) (device : Device) (p : Path) :
    t.Widens (t.ensureDirectory device p).2 := by
  unfold ensureDirectory
  cases hmade : Device.pass (device.directory? p) (t.makeDirectory p) with
  | error fault => exact .refl t
  | ok u => exact widens_makeDirectory (Device.pass_eq_ok hmade).1

theorem widens_ensureDirectoriesUpTo (device : Device) (depth : Nat) (t : FileTree) (p : Path) :
    t.Widens (t.ensureDirectoriesUpTo device depth p).2 := by
  fun_induction ensureDirectoriesUpTo device depth t p with
  | case1 => exact .refl _
  | case2 _ _ _ _ _ _ _ _ habove ih =>
    rw [habove] at ih
    exact ih.trans (widens_ensureDirectory _ _ _)
  | case3 _ _ _ _ _ _ _ _ _ habove ih =>
    rw [habove] at ih
    exact ih
  | case4 => exact widens_ensureDirectory _ _ _

/-! ## Writing and moving -/

/-- A file is at the end of a path, and all else is as it was. -/
structure Written (t u : FileTree) (p : Path) (content : ByteArray) (place : Place) : Prop where
  locate : u.locate p = .ok place
  file : ∃ m, u.outline place = some (.file content m)
  others : ∀ q, q ≠ place → u.outline q = t.outline q
  grounded : t.Grounded → u.Grounded

theorem written_put {place : Place} {content : ByteArray} {m : Int} (hnamed : place ≠ [])
    (hplace : t.locate p = .ok place) (hfree : ¬ t.HasDirectory place)
    (hparent : t.Grounded → t.HasDirectory place.dropLast) :
    t.Written (t.put place (.file content m)) p content place := by
  refine ⟨(keeps_put hnamed (Or.inl hfree)).locate hplace, ⟨m, ?_⟩, fun q hq => ?_,
    fun hgrounded => hgrounded.put hnamed (hparent hgrounded) (Or.inl hfree)⟩
  · rw [outline_put hnamed, if_pos rfl]
    rfl
  · rw [outline_put hnamed, if_neg hq]

/-- A written file can be given another content. -/
theorem Written.refill {place : Place} {made content : ByteArray} {m : Int} (hnamed : place ≠ [])
    (h : t.Written u p made place) :
    t.Written (u.put place (.file content m)) p content place := by
  obtain ⟨m', hfile⟩ := h.file
  have hfree : ¬ u.HasDirectory place := fun hdirectory =>
    absurd (hdirectory.symm.trans hfile) (by simp)
  have hfilled : u.Written (u.put place (.file content m)) p content place :=
    written_put hnamed h.locate hfree fun hgrounded => hgrounded place (by rw [hfile]; rfl)
  exact { hfilled with
    others := fun q hq => (hfilled.others q hq).trans (h.others q hq)
    grounded := hfilled.grounded ∘ h.grounded }

/-- A file that is moved is at the end of the other path, nothing is where it was,
    and all else is as it was. -/
theorem outline_of_rename {source target : Path} {origin : Place} {content : ByteArray} {m : Int}
    (hgrounded : t.Grounded) (horigin : t.locate source = .ok origin)
    (hfile : t.outline origin = some (.file content m)) (h : t.rename source target = .ok u) :
    ∃ place, u.locate source = .ok origin ∧ u.locate target = .ok place
      ∧ u.outline place = some (.file content m) ∧ (origin ≠ place → u.outline origin = none)
      ∧ ∀ q, q ≠ place → q ≠ origin → u.outline q = t.outline q := by
  obtain ⟨origin', place, content', m', horigin', hnode, hplace, htakes, hfree, rfl⟩ :=
    rename_eq_ok h
  obtain rfl : origin = origin' := Except.ok.inj (horigin.symm.trans horigin')
  obtain ⟨rfl, rfl⟩ : content = content' ∧ m = m' := by
    rw [outline_eq_file_iff, hnode] at hfile
    simpa [eq_comm] using hfile
  refine ⟨place, ?_⟩
  by_cases hstays : place = origin
  · subst hstays
    rw [if_pos rfl]
    exact ⟨horigin, hplace, hfile, fun hne => absurd rfl hne, fun _ _ _ => rfl⟩
  · rw [if_neg hstays]
    -- the file is put at its new place first, and is still at the old one then
    have hput : ∀ q, (t.put place (.file content m)).outline q
        = if q = place then some (.file content m) else t.outline q := fun _ =>
      outline_put htakes.named
    have hold : (t.put place (.file content m)).outline origin = some (.file content m) := by
      rw [hput, if_neg (Ne.symm hstays), hfile]
    have hgrounded' : (t.put place (.file content m)).Grounded :=
      hgrounded.put htakes.named htakes.parent (Or.inl hfree)
    have hkeeps : t.Keeps ((t.put place (.file content m)).erase origin) :=
      (keeps_put htakes.named (Or.inl hfree)).trans (hgrounded'.keeps_erase_file hold)
    have herase : ∀ q, ((t.put place (.file content m)).erase origin).outline q
        = if q = origin then none else (t.put place (.file content m)).outline q := fun _ =>
      hgrounded'.outline_erase_file hold
    refine ⟨hkeeps.locate horigin, hkeeps.locate hplace, ?_, fun _ => ?_, fun q hq hq' => ?_⟩
    · rw [herase, if_neg hstays, hput, if_pos rfl]
    · rw [herase, if_pos rfl]
    · rw [herase, if_neg hq', hput, if_neg hq]

/-- The files of both trees are the same. -/
def SameFiles (t u : FileTree) : Prop := ∀ q, u.fileAt? q = t.fileAt? q

/-- These bytes are in the draft of a path, and every other file is as it was. -/
structure DraftLeft (t u : FileTree) (p : Path) (content : ByteArray) (draft : Place) : Prop where
  locate_draft : u.locate p.draft = .ok draft
  content_draft : ∃ m, u.fileAt? draft = some (.file content m)
  others : ∀ q, q ≠ draft → u.fileAt? q = t.fileAt? q

theorem Written.draftLeft {content : ByteArray} {draft : Place}
    (h : t.Written u p.draft content draft) : t.DraftLeft u p content draft := by
  obtain ⟨m, hfile⟩ := h.file
  refine ⟨h.locate, ⟨m, ?_⟩, fun q hq => congrArg (Option.filter _) (h.others q hq)⟩
  rw [fileAt?, hfile]
  rfl

/-- The text is in the file at a path.  Nothing is at the place of the draft, unless
    the path leads there itself, and every other file is as it was. -/
structure Replaced (t u : FileTree) (p : Path) (text : Text) (target draft : Place) : Prop where
  locate : u.locate p = .ok target
  locate_draft : u.locate p.draft = .ok draft
  read : u.read p = .ok text
  gone : draft ≠ target → u.outline draft = none
  others : ∀ q, q ≠ target → q ≠ draft → u.fileAt? q = t.fileAt? q

/-- Nothing but the target has changed if the draft is the target or was no file. -/
theorem Replaced.others_iff {text : Text} {target draft : Place}
    (h : t.Replaced u p text target draft) :
    (∀ q, q ≠ target → u.fileAt? q = t.fileAt? q)
      ↔ draft = target ∨ t.fileAt? draft = none := by
  have hgone : draft ≠ target → u.fileAt? draft = none := fun hne => by
    rw [fileAt?, h.gone hne]
    rfl
  constructor
  · intro hsame
    by_cases hne : draft = target
    · exact Or.inl hne
    · exact Or.inr ((hsame draft hne).symm.trans (hgone hne))
  · intro hdraft q hq
    by_cases hne : q = draft
    · subst hne
      rw [hgone hq, hdraft.resolve_left hq]
    · exact h.others q hq hne

end FileTree

/-! ## Devices -/

namespace Device

/-- The device refuses no step that follows the making of directories. -/
structure Passes (device : Device) : Prop where
  create : device.create? = none
  write : device.write? = none
  sync : device.sync? = none
  rename : device.rename? = none

/-- No draft of a path is made for this fault: a directory is missing that cannot
    be made, or the draft cannot. -/
inductive Prevents (device : Device) (t : FileTree) (p : Path) (fault : FileFault)
    (u : FileTree) : Prop
  | directory {parent : Path} (hparent : p.parent? = some parent)
      (hfault : t.ensureDirectories device parent = (.error fault, u))
  | create (hfault : pass device.create? (u.filePlace p.draft) = .error fault)

/-- How much of a content is in a file that cannot be filled or made lasting. -/
inductive Stops (device : Device) (content : ByteArray) : FileFault → ByteArray → Prop
  | write {fault : FileFault} {taken : Nat} (hwrite : device.write? = some (taken, fault)) :
      Stops device content fault (content.extract 0 taken)
  | sync {fault : FileFault} (hwrite : device.write? = none) (hsync : device.sync? = some fault) :
      Stops device content fault content

/-- How much of a content is in the draft of a path, in a tree where the draft cannot
    be completed or cannot be moved. -/
inductive Leaves (device : Device) (u : FileTree) (p : Path) (content : ByteArray) :
    FileFault → ByteArray → Prop
  | stops {fault : FileFault} {written : ByteArray} (hstops : device.Stops content fault written) :
      Leaves device u p content fault written
  | rename {fault : FileFault} (hwrite : device.write? = none) (hsync : device.sync? = none)
      (hfault : pass device.rename? (u.rename p.draft p) = .error fault) :
      Leaves device u p content fault content

end Device

namespace FileTree

variable {t u : FileTree} {p : Path}

/-- A file is written whole, or it has the beginning that was written before a
    fault, or it is not made. -/
theorem writeThrough_cases (t : FileTree) (device : Device) (p : Path) (content : ByteArray) :
    (∃ u place, t.writeThrough device p content = (.ok (), u) ∧ device.create? = none
      ∧ device.write? = none ∧ device.sync? = none ∧ t.Written u p content place)
    ∨ (∃ fault, t.writeThrough device p content = (.error fault, t)
        ∧ Device.pass device.create? (t.filePlace p) = .error fault)
    ∨ ∃ fault u written place, t.writeThrough device p content = (.error fault, u)
        ∧ device.Stops content fault written ∧ t.Written u p written place := by
  unfold writeThrough
  cases hpass : Device.pass device.create? (t.filePlace p) with
  | error fault => exact Or.inr (Or.inl ⟨fault, rfl, rfl⟩)
  | ok place =>
    obtain ⟨hplace, hcreate⟩ := Device.pass_eq_ok hpass
    obtain ⟨hlocate, htakes, hfree⟩ := filePlace_eq_ok hplace
    have hcreated : t.Written (t.put place (.file .empty t.now)) p .empty place :=
      written_put htakes.named hlocate hfree fun _ => htakes.parent
    have hfilled : ∀ bytes, t.Written ((t.put place (.file .empty t.now)).put place
        (.file bytes t.now)) p bytes place := fun _ => hcreated.refill htakes.named
    simp only
    cases hwrite : device.write? with
    | some refusal =>
      obtain ⟨taken, fault⟩ := refusal
      exact Or.inr (Or.inr ⟨fault, _, _, place, rfl, .write hwrite, hfilled _⟩)
    | none =>
      cases hsync : device.sync? with
      | some fault =>
        exact Or.inr (Or.inr ⟨fault, _, _, place, rfl, .sync hwrite hsync, hfilled _⟩)
      | none => exact Or.inl ⟨_, place, rfl, hcreate, rfl, rfl, hfilled _⟩

/-- A text is written to its place, nowhere, or to the draft alone as far as the
    device lets it. -/
theorem writeWhole_cases (hgrounded : t.Grounded) (device : Device) (p : Path) (text : Text) :
    (∃ u target draft, t.writeWhole device p (Text.toBytes text) = (.ok (), u)
      ∧ device.Passes ∧ t.Replaced u p text target draft)
    ∨ (∃ fault, t.writeWhole device p (Text.toBytes text) = (.error fault, t)
        ∧ Device.pass device.create? (t.filePlace p.draft) = .error fault)
    ∨ ∃ fault u written draft, t.writeWhole device p (Text.toBytes text) = (.error fault, u)
        ∧ device.Leaves u p (Text.toBytes text) fault written
        ∧ t.DraftLeft u p written draft := by
  unfold writeWhole
  obtain ⟨written, draft, hok, hcreate, hwrite, hsync, hfile⟩ | ⟨fault, hfault, hprevented⟩
    | ⟨fault, u, written, draft, hfault, hstops, hfile⟩ :=
    t.writeThrough_cases device p.draft (Text.toBytes text)
  · rw [hok]
    simp only
    cases hpass : Device.pass device.rename? (written.rename p.draft p) with
    | error fault =>
      exact Or.inr (Or.inr ⟨fault, written, _, draft, rfl, .rename hwrite hsync hpass,
        hfile.draftLeft⟩)
    | ok moved =>
      obtain ⟨hrename, hrefusal⟩ := Device.pass_eq_ok hpass
      obtain ⟨m, hdraft⟩ := hfile.file
      obtain ⟨target, hdraft', htarget, hmoved, hgone, hothers⟩ :=
        outline_of_rename (hfile.grounded hgrounded) hfile.locate hdraft hrename
      refine Or.inl ⟨moved, target, draft, rfl, ⟨hcreate, hwrite, hsync, hrefusal⟩, htarget,
        hdraft', read_of_outline htarget hmoved, hgone, fun q hq hq' => ?_⟩
      rw [← hfile.draftLeft.others q hq']
      exact congrArg (Option.filter _) (hothers q hq hq')
  · rw [hfault]
    exact Or.inr (Or.inl ⟨fault, rfl, hprevented⟩)
  · rw [hfault]
    exact Or.inr (Or.inr ⟨fault, u, written, draft, rfl, .stops hstops, hfile.draftLeft⟩)

/-- Directories that are made on the way are no files. -/
theorem DraftLeft.of_widens {v : FileTree} {content : ByteArray} {draft : Place}
    (h : t.Widens u) (h' : u.DraftLeft v p content draft) : t.DraftLeft v p content draft :=
  { h' with others := fun q hq => (h'.others q hq).trans (h.files q) }

theorem Replaced.of_widens {v : FileTree} {text : Text} {target draft : Place} (h : t.Widens u)
    (h' : u.Replaced v p text target draft) : t.Replaced v p text target draft :=
  { h' with others := fun q hq hq' => (h'.others q hq hq').trans (h.files q) }

/-- The same holds of a text whose directory may be missing. -/
theorem writeWithDirectories_cases (hgrounded : t.Grounded) (device : Device) (p : Path)
    (text : Text) :
    (∃ u target draft, t.writeWithDirectories device p (Text.toBytes text) = (.ok (), u)
      ∧ device.Passes ∧ t.Replaced u p text target draft)
    ∨ (∃ fault u, t.writeWithDirectories device p (Text.toBytes text) = (.error fault, u)
        ∧ device.Prevents t p fault u ∧ t.SameFiles u)
    ∨ ∃ fault u written draft,
        t.writeWithDirectories device p (Text.toBytes text) = (.error fault, u)
        ∧ device.Leaves u p (Text.toBytes text) fault written
        ∧ t.DraftLeft u p written draft := by
  -- whatever was made before, the text is written as `writeWhole_cases` says
  have hwrite : ∀ u, t.Widens u →
      (∃ v target draft, u.writeWhole device p (Text.toBytes text) = (.ok (), v)
        ∧ device.Passes ∧ t.Replaced v p text target draft)
      ∨ (∃ fault v, u.writeWhole device p (Text.toBytes text) = (.error fault, v)
          ∧ device.Prevents t p fault v ∧ t.SameFiles v)
      ∨ ∃ fault v written draft, u.writeWhole device p (Text.toBytes text) = (.error fault, v)
          ∧ device.Leaves v p (Text.toBytes text) fault written
          ∧ t.DraftLeft v p written draft := by
    intro u hu
    obtain ⟨v, target, draft, hok, hpasses, hreplaced⟩ | ⟨fault, hfault, hprevented⟩
      | ⟨fault, v, written, draft, hfault, hleaves, hleft⟩ :=
      writeWhole_cases (hu.grounded hgrounded) device p text
    · exact Or.inl ⟨v, target, draft, hok, hpasses, hreplaced.of_widens hu⟩
    · exact Or.inr (Or.inl ⟨fault, u, hfault, .create hprevented, hu.files⟩)
    · exact Or.inr (Or.inr ⟨fault, v, written, draft, hfault, hleaves, hleft.of_widens hu⟩)
  unfold writeWithDirectories
  cases hparent : p.parent? with
  | none => exact hwrite t (.refl t)
  | some parent =>
    have hwidens := widens_ensureDirectoriesUpTo device parent.text.length t parent
    change t.Widens (t.ensureDirectories device parent).2 at hwidens
    simp only
    split
    · next fault u hmade =>
      rw [hmade] at hwidens
      exact Or.inr (Or.inl ⟨fault, u, rfl, .directory hparent hmade, hwidens.files⟩)
    · next u hmade =>
      rw [hmade] at hwidens
      exact hwrite u hwidens

end FileTree

/-- **A report is written in its place or not at all, but for the draft.**  A run
    that succeeds leaves the report at its path, and the device has refused
    nothing.  Nothing is left at the place of the draft then, and every other file
    is as it was; so the report has cost another file exactly if one stood at the
    place of the draft.  A run that fails leaves every file as it was if there is
    no configuration or the draft cannot be made.  Otherwise it leaves the draft,
    and every other file as it was: with the bytes that were taken if the device
    takes no more, and with the whole report if it fails to make it lasting or to
    move it. -/
theorem runRegistry_files (device : Device) (a : RegistryArguments) (m : Moment)
    (time : Timestamp) (path : Path) (hpath : a.output? = some path)
    (hgrounded : m.tree.Grounded) :
    (∃ report after target draft, runRegistry a m time device = (.ok (report, []), after)
      ∧ device.Passes ∧ m.tree.Replaced after path report.render target draft
      ∧ ((∀ q, q ≠ target → after.fileAt? q = m.tree.fileAt? q)
        ↔ draft = target ∨ m.tree.fileAt? draft = none))
    ∨ (∃ fault, runRegistry a m time device = (.error (.config fault), m.tree)
        ∧ a.source.toConfig m.tree = .error fault)
    ∨ (∃ fault after, runRegistry a m time device = (.error (.file fault), after)
        ∧ device.Prevents m.tree path fault after ∧ m.tree.SameFiles after)
    ∨ ∃ fault report after written draft,
        runRegistry a m time device = (.error (.file fault), after)
        ∧ device.Leaves after path (Text.toBytes (Report.render report)) fault written
        ∧ m.tree.DraftLeft after path written draft := by
  unfold runRegistry
  cases a.source.toConfig m.tree with
  | error fault => exact Or.inr (Or.inl ⟨fault, rfl, rfl⟩)
  | ok config =>
    simp only [hpath]
    generalize Report.ofRegistry time (Engine.standard.registry m config).1.value = report
    obtain ⟨u, target, draft, hok, hpasses, hreplaced⟩ | ⟨fault, u, hfault, hprevents, hsame⟩
      | ⟨fault, u, written, draft, hfault, hleaves, hleft⟩ :=
      FileTree.writeWithDirectories_cases hgrounded device path report.render
    · rw [hok]
      exact Or.inl ⟨report, u, target, draft, rfl, hpasses, hreplaced, hreplaced.others_iff⟩
    · rw [hfault]
      exact Or.inr (Or.inr (Or.inl ⟨fault, u, rfl, hprevents, hsame⟩))
    · rw [hfault]
      exact Or.inr (Or.inr (Or.inr ⟨fault, report, u, written, draft, rfl, hleaves, hleft⟩))

/-! ## A file at the place of the draft -/

/-- A tree with a file of the name that the draft of `report.json` has, and with a
    directory. -/
def withNotes : FileTree :=
  [FileChange.write (.ofString "report.tmp") (Text.toBytes "notes".toList) 7,
    .makeDirectory (.ofString "out")].foldl FileTree.apply (.ofWorkingDirectory [] 5)

theorem grounded_withNotes : withNotes.Grounded := FileTree.grounded_changes _ [] 5

/-- The arguments that ask for a report at a path. -/
def reportAt (path : String) : RegistryArguments := ⟨{}, some (.ofString path)⟩

/-- A device with room for three bytes. -/
def nearlyFull : Device where
  write? := some (3, .device "No space left on device (os error 28)".toList)

/-- The notes are gone when the report is in its place, and three bytes of the
    report are in their place if the device is full then. -/
theorem runRegistry_files_withNotes :
    (reportAt "report.json").output? = some (.ofString "report.json") ∧ withNotes.Grounded
      ∧ (∃ report after target draft,
        runRegistry (reportAt "report.json") ⟨withNotes, 0⟩ ⟨0⟩ = (.ok (report, []), after)
        ∧ withNotes.Replaced after (.ofString "report.json") report.render target draft
        ∧ ¬ ∀ q, q ≠ target → after.fileAt? q = withNotes.fileAt? q)
      ∧ ∃ fault report after draft,
        runRegistry (reportAt "report.json") ⟨withNotes, 0⟩ ⟨0⟩ nearlyFull
          = (.error (.file fault), after)
        ∧ withNotes.DraftLeft after (.ofString "report.json")
            ((Text.toBytes (Report.render report)).extract 0 3) draft
        ∧ ¬ withNotes.SameFiles after := by
  refine ⟨rfl, grounded_withNotes, ?_, ?_⟩
  · have hok : (runRegistry (reportAt "report.json") ⟨withNotes, 0⟩ ⟨0⟩).1.toOption.isSome
        = true := by decide +kernel
    have htarget : (runRegistry (reportAt "report.json") ⟨withNotes, 0⟩ ⟨0⟩).2.locate
        (.ofString "report.json") = .ok ["report.json".toList] := by decide +kernel
    have hdraft : (runRegistry (reportAt "report.json") ⟨withNotes, 0⟩ ⟨0⟩).2.locate
        (Path.ofString "report.json").draft = .ok ["report.tmp".toList] := by decide +kernel
    obtain ⟨report, after, target, draft, hrun, -, hreplaced, hothers⟩ | ⟨fault, hrun, -⟩
      | ⟨fault, after, hrun, -⟩ | ⟨fault, report, after, written, draft, hrun, -⟩ :=
      runRegistry_files .sound (reportAt "report.json") ⟨withNotes, 0⟩ ⟨0⟩
        (.ofString "report.json") rfl grounded_withNotes
    · refine ⟨report, after, target, draft, hrun, hreplaced, fun hsame => ?_⟩
      rw [hrun] at htarget hdraft
      obtain rfl := Except.ok.inj (htarget.symm.trans hreplaced.locate)
      obtain rfl := Except.ok.inj (hdraft.symm.trans hreplaced.locate_draft)
      obtain heq | hnone := hothers.mp hsame
      · exact absurd heq (by decide)
      · have hnotes : (withNotes.fileAt? ["report.tmp".toList]).isSome = true := by decide +kernel
        rw [hnone] at hnotes
        exact absurd hnotes (by decide)
    all_goals
      rw [hrun] at hok
      exact absurd hok (by simp [Except.toOption])
  · -- what is in the draft now are not the notes
    have hchanged : ¬ withNotes.SameFiles
        (runRegistry (reportAt "report.json") ⟨withNotes, 0⟩ ⟨0⟩ nearlyFull).2 := by
      intro hsame
      have hdiffer : ((runRegistry (reportAt "report.json") ⟨withNotes, 0⟩ ⟨0⟩ nearlyFull).2.fileAt?
          ["report.tmp".toList] == withNotes.fileAt? ["report.tmp".toList]) = false := by
        decide +kernel
      rw [hsame] at hdiffer
      exact absurd hdiffer (by decide +kernel)
    obtain ⟨report, after, target, draft, hrun, hpasses, -⟩ | ⟨fault, hrun, -⟩
      | ⟨fault, after, hrun, -, hsame⟩
      | ⟨fault, report, after, written, draft, hrun, hleaves, hleft⟩ :=
      runRegistry_files nearlyFull (reportAt "report.json") ⟨withNotes, 0⟩ ⟨0⟩
        (.ofString "report.json") rfl grounded_withNotes
    · exact absurd hpasses.write (by simp [nearlyFull])
    · rw [hrun] at hchanged
      exact absurd (fun _ => rfl) hchanged
    · rw [hrun] at hchanged
      exact absurd hsame hchanged
    · rw [hrun] at hchanged
      refine ⟨fault, report, after, draft, hrun, ?_, hchanged⟩
      cases hleaves with
      | stops hstops =>
        cases hstops with
        | write hwrite =>
          simp only [nearlyFull, Option.some.injEq, Prod.mk.injEq] at hwrite
          rwa [← hwrite.1] at hleft
        | sync hwrite => exact absurd hwrite (by simp [nearlyFull])
      | rename hwrite => exact absurd hwrite (by simp [nearlyFull])

/-- A run that succeeds has taken another file away, and a run that fails has left a
    new one. -/
theorem runRegistry_draft_ne :
    ((runRegistry (reportAt "report.json") ⟨withNotes, 0⟩ ⟨0⟩).1.toOption.isSome = true
      ∧ (withNotes.fileAt? ["report.tmp".toList]).isSome = true
      ∧ ((runRegistry (reportAt "report.json") ⟨withNotes, 0⟩ ⟨0⟩).2.fileAt?
          ["report.tmp".toList]).isSome = false)
    ∧ (runRegistry (reportAt "out") ⟨withNotes, 0⟩ ⟨0⟩).1.toOption.isSome = false
      ∧ (withNotes.fileAt? ["out.tmp".toList]).isSome = false
      ∧ ((runRegistry (reportAt "out") ⟨withNotes, 0⟩ ⟨0⟩).2.fileAt?
          ["out.tmp".toList]).isSome = true := by
  decide +kernel

end ClassLint
