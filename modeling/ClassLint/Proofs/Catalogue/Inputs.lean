/-
  ClassLint.Proofs.Catalogue.Inputs

  The files that a catalogue is made from.  A list of them is as good as
  another if it names the layer files from the same directory, however that is
  spelled: where trees agree, such a list with its times tells the catalogue.
-/

import ClassLint.Engine
import ClassLint.Proofs.FileTree.Reading
import ClassLint.Proofs.Text.Utf8

namespace ClassLint

open FileTree (Agree)

namespace Path

theorem extension?_of_same {p q : Path} (h : p.same q = true) : p.extension? = q.extension? := by
  have hcomponents : p.components = q.components := by simpa [same] using h
  rw [extension?, extension?, fileName?, fileName?, hcomponents]

theorem eq_of_bytes_eq {p q : Path} (h : Text.bytes p.text = Text.bytes q.text) : p = q := by
  have htext := Text.bytes_injective h
  cases p
  cases q
  exact congrArg Path.mk htext

end Path

/-! ## Stamps -/

namespace Engine

theorem mem_stampsOf {t : FileTree} {paths : List Path} {stamp : FileStamp} :
    stamp ∈ stampsOf t paths ↔
      ∃ p ∈ paths, ∃ node, t.stat p = .ok node ∧ stamp = ⟨Text.bytes p.text, node.modified⟩ := by
  unfold stampsOf
  rw [List.mem_filterMap]
  constructor
  · rintro ⟨p, hp, hstamp⟩
    cases hstat : t.stat p with
    | error fault => simp [hstat] at hstamp
    | ok node => exact ⟨p, hp, node, hstat, by simpa [hstat] using hstamp.symm⟩
  · rintro ⟨p, hp, node, hstat, rfl⟩
    exact ⟨p, hp, by simp [hstat]⟩

theorem stampsOf_cons_ok {t : FileTree} {p : Path} {node : Node} (h : t.stat p = .ok node)
    (rest : List Path) :
    stampsOf t (p :: rest) = ⟨Text.bytes p.text, node.modified⟩ :: stampsOf t rest := by
  simp [stampsOf, h]

/-- Between trees that agree, a file with a stamp in both is the same in both. -/
theorem stat_eq_of_stampsOf_eq {t u : FileTree} (hagree : t.Agree u) {paths paths' : List Path}
    (hstamps : stampsOf t paths = stampsOf u paths') {p : Path} (hp : p ∈ paths) {node : Node}
    (hstat : t.stat p = .ok node) : u.stat p = .ok node := by
  have hmem : (⟨Text.bytes p.text, node.modified⟩ : FileStamp) ∈ stampsOf u paths' := by
    rw [← hstamps]
    exact mem_stampsOf.mpr ⟨p, hp, node, hstat, rfl⟩
  obtain ⟨q, -, node', hstat', hstamp⟩ := mem_stampsOf.mp hmem
  obtain ⟨hbytes, hmodified⟩ := FileStamp.mk.inj hstamp
  rw [← Path.eq_of_bytes_eq hbytes] at hstat'
  rw [hstat', hagree p node node' hstat hstat' hmodified]

end Engine

/-! ## Layer files -/

/-- The layer files of the design at a path, from some directory; none if the
    design cannot be loaded. -/
def FileTree.layersAt (t : FileTree) (design dir : Path) : List Path :=
  match Design.load t design with
  | .ok d => d.layerPaths dir
  | .error _ => []

namespace LayerMemo

/-- The memo is of a design that was loaded from this tree. -/
def ReadIn (memo : LayerMemo) (t : FileTree) : Prop :=
  ∃ node d, t.stat memo.configPath = .ok node ∧ node.modified = memo.modified
    ∧ Design.load t memo.configPath = .ok d ∧ memo.layers = d.layerPaths memo.cwd

/-- A memo of an earlier tree names the layer files of today's design, from the
    directory as it was spelled then. -/
theorem layers_eq {memo : LayerMemo} {w t : FileTree} (hread : memo.ReadIn w)
    (hagree : w.Agree t) {design cwd : Path} {node : Node} (hstat : t.stat design = .ok node)
    (hfor : memo.isFor design node.modified cwd = true) :
    memo.layers = t.layersAt design memo.cwd := by
  obtain ⟨old, d, hold, hmodified, hload, hlayers⟩ := hread
  simp only [isFor, Bool.and_eq_true, beq_iff_eq] at hfor
  obtain ⟨⟨hsame, htime⟩, -⟩ := hfor
  -- the memo's own spelling of the path leads to today's design too
  obtain ⟨content, m, hfile⟩ := FileTree.stat_of_load hload
  have hstat' : t.stat memo.configPath = .ok node :=
    FileTree.stat_of_same_file hsame hfile hstat
  have hnode : old = node := hagree _ _ _ hold hstat' (by rw [hmodified, htime])
  have hload' : (Design.load t design).toOption = some d := by
    rw [← FileTree.toOption_load_congr (t := w) (p := memo.configPath) (by rw [hold, hstat, hnode])
      (Path.extension?_of_same hsame), hload]
    rfl
  rw [hlayers, FileTree.layersAt]
  cases hnow : Design.load t design with
  | error fault => simp [hnow, Except.toOption] at hload'
  | ok d' =>
    have hd : d' = d := by simpa [hnow, Except.toOption] using hload'
    rw [hd]

/-- The layer files of a design, remembered or read, are those of today's
    design.  What is remembered afterwards is as before or was read just now. -/
theorem layersOf_spec {memo : Option LayerMemo} {t : FileTree}
    (hmemo : ∀ m, memo = some m → ∃ w, m.ReadIn w ∧ w.Agree t) (design cwd : Path) :
    (∃ dir, dir.same cwd = true ∧ (dir = cwd ∨ ∃ m, memo = some m ∧ dir = m.cwd)
        ∧ (layersOf memo t design cwd).1 = t.layersAt design dir)
      ∧ ((layersOf memo t design cwd).2 = memo
        ∨ ∃ m, (layersOf memo t design cwd).2 = some m ∧ m.ReadIn t ∧ m.cwd = cwd) := by
  unfold layersOf
  cases hstat : t.stat design with
  | error fault =>
    -- without a design file there is nothing to name or to remember
    refine ⟨⟨cwd, Path.same_refl cwd, Or.inl rfl, ?_⟩, Or.inl rfl⟩
    have hload := FileTree.toOption_load t design
    rw [FileTree.toOption_read, hstat] at hload
    unfold FileTree.layersAt
    cases hnow : Design.load t design with
    | error fault => rfl
    | ok d => simp [hnow, Except.toOption] at hload
  | ok node =>
    simp only
    cases hfilter : memo.filter fun m => m.isFor design node.modified cwd with
    | some m =>
      obtain ⟨hm, hfor⟩ := Option.filter_eq_some_iff.mp hfilter
      -- the memo is for this design: its directory is `cwd` as it was spelled then
      obtain ⟨w, hread, hagree⟩ := hmemo m hm
      have hsame : m.cwd.same cwd = true := by
        simp only [isFor, Bool.and_eq_true] at hfor
        exact hfor.2
      exact ⟨⟨m.cwd, hsame, Or.inr ⟨m, hm, rfl⟩, layers_eq hread hagree hstat hfor⟩, Or.inl rfl⟩
    | none =>
      simp only
      cases hload : Design.load t design with
      | error fault =>
        -- a design that cannot be loaded is not remembered
        refine ⟨⟨cwd, Path.same_refl cwd, Or.inl rfl, ?_⟩, Or.inl rfl⟩
        simp [FileTree.layersAt, hload]
      | ok d =>
        refine ⟨⟨cwd, Path.same_refl cwd, Or.inl rfl, ?_⟩, Or.inr ?_⟩
        · simp [FileTree.layersAt, hload]
        · exact ⟨_, rfl, ⟨node, d, hstat, rfl, hload, rfl⟩, rfl⟩

end LayerMemo

/-! ## Inputs -/

/-- The files that the catalogue of some settings is made from: the design file
    and, where they count, its layer files from some spelling `dir` of the
    directory. -/
def CatalogueSettings.inputsFrom (s : CatalogueSettings) (t : FileTree) (cwd dir : Path) :
    List Path :=
  match s.designFile? t cwd with
  | none => []
  | some design => if s.includeGenerated then design :: t.layersAt design dir else [design]

/-- The inputs that a generator names, and what it remembers afterwards. -/
theorem Generator.inputs_spec {memo : Option LayerMemo} {t : FileTree}
    (hmemo : ∀ m, memo = some m → ∃ w, m.ReadIn w ∧ w.Agree t) (s : CatalogueSettings)
    (cwd : Path) :
    (∃ dir, dir.same cwd = true ∧ (dir = cwd ∨ ∃ m, memo = some m ∧ dir = m.cwd)
        ∧ (design.inputs memo t s cwd).1 = s.inputsFrom t cwd dir)
      ∧ ((design.inputs memo t s cwd).2 = memo
        ∨ ∃ m, (design.inputs memo t s cwd).2 = some m ∧ m.ReadIn t ∧ m.cwd = cwd) := by
  unfold inputs CatalogueSettings.inputsFrom
  cases hdesign : s.designFile? t cwd with
  | none => exact ⟨⟨cwd, Path.same_refl cwd, Or.inl rfl, rfl⟩, Or.inl rfl⟩
  | some path =>
    cases hlayers : s.includeGenerated with
    | false => exact ⟨⟨cwd, Path.same_refl cwd, Or.inl rfl, by simp⟩, Or.inl (by simp)⟩
    | true =>
      obtain ⟨⟨dir, hsame, hdir, heq⟩, hnext⟩ := LayerMemo.layersOf_spec hmemo path cwd
      exact ⟨⟨dir, hsame, hdir, by simp [heq]⟩, by simpa using hnext⟩

/-! ## The catalogue -/

/-- The catalogue of a design with its layer classes, where they count. -/
def Design.catalogueFor (d : Design) (s : CatalogueSettings) (t : FileTree) (cwd : Path) :
    Catalogue :=
  if s.includeGenerated then
    { d.catalogue with classes := d.catalogue.classes.insertAll (d.layerClasses t cwd) }
  else d.catalogue

theorem Generator.toOption_fromDesign (t : FileTree) (s : CatalogueSettings) (cwd : Path) :
    (fromDesign t s cwd).toOption =
      match s.designFile? t cwd with
      | none => some (Design.catalogueFor {} s t cwd)
      | some path => (Design.load t path).toOption.map fun d => d.catalogueFor s t cwd := by
  unfold fromDesign Design.catalogueFor
  cases s.designFile? t cwd with
  | none => cases s.includeGenerated <;> rfl
  | some path =>
    simp only
    cases Design.load t path with
    | error fault => rfl
    | ok d => cases s.includeGenerated <;> rfl

section

variable {t u : FileTree} {s : CatalogueSettings} {cwd dir dir' : Path}

/-- A design file that is looked for is there. -/
theorem CatalogueSettings.stat_designFile? {path : Path} (hauto : s.configPath = none)
    (h : s.designFile? t cwd = some path) : ∃ node, t.stat path = .ok node := by
  unfold designFile? at h
  rw [hauto] at h
  have hfile : t.isFile path = true := List.find?_some h
  unfold FileTree.isFile at hfile
  cases hstat : t.stat path with
  | error fault => simp [hstat] at hfile
  | ok node => exact ⟨node, rfl⟩

theorem CatalogueSettings.stampsOf_inputsFrom {path : Path} {node : Node}
    (h : s.designFile? t cwd = some path) (hstat : t.stat path = .ok node) (dir : Path) :
    (Engine.stampsOf t (s.inputsFrom t cwd dir)).head?
      = some ⟨Text.bytes path.text, node.modified⟩ := by
  unfold inputsFrom
  rw [h]
  cases s.includeGenerated with
  | true => simp [Engine.stampsOf_cons_ok hstat]
  | false => simp [Engine.stampsOf_cons_ok hstat]

/-- Inputs with the same stamps are of the same design file. -/
theorem CatalogueSettings.designFile?_eq
    (hstamps : Engine.stampsOf t (s.inputsFrom t cwd dir)
      = Engine.stampsOf u (s.inputsFrom u cwd dir')) :
    s.designFile? t cwd = s.designFile? u cwd := by
  cases hauto : s.configPath with
  | some path => simp [designFile?, hauto]
  | none =>
    -- a design file that was looked for is there, and its stamp is the first one
    have hnone : ∀ w : FileTree, ∀ d, s.designFile? w cwd = none →
        (Engine.stampsOf w (s.inputsFrom w cwd d)).head? = none := by
      intro w d h
      simp [inputsFrom, h, Engine.stampsOf]
    cases ht : s.designFile? t cwd with
    | none =>
      cases hu : s.designFile? u cwd with
      | none => rfl
      | some q =>
        obtain ⟨node, hstat⟩ := stat_designFile? hauto hu
        have hhead := stampsOf_inputsFrom hu hstat dir'
        rw [← hstamps, hnone t dir ht] at hhead
        exact absurd hhead (by simp)
    | some p =>
      obtain ⟨node, hstat⟩ := stat_designFile? hauto ht
      have hhead := stampsOf_inputsFrom ht hstat dir
      cases hu : s.designFile? u cwd with
      | none =>
        rw [hstamps, hnone u dir' hu] at hhead
        exact absurd hhead (by simp)
      | some q =>
        obtain ⟨node', hstat'⟩ := stat_designFile? hauto hu
        rw [hstamps, stampsOf_inputsFrom hu hstat' dir'] at hhead
        have hbytes : Text.bytes q.text = Text.bytes p.text := by
          simp only [Option.some.injEq, FileStamp.mk.injEq] at hhead
          exact hhead.1
        exact congrArg some (Path.eq_of_bytes_eq hbytes).symm

/-- Of inputs with the same stamps each that is in both lists leads to the same
    in both trees. -/
theorem Engine.toOption_stat_eq (hagree : t.Agree u) {paths paths' : List Path}
    (hstamps : stampsOf t paths = stampsOf u paths') {p : Path} (hp : p ∈ paths)
    (hp' : p ∈ paths') : (t.stat p).toOption = (u.stat p).toOption := by
  cases ht : t.stat p with
  | ok node => rw [stat_eq_of_stampsOf_eq hagree hstamps hp ht]
  | error fault =>
    cases hu : u.stat p with
    | error fault' => rfl
    | ok node =>
      have hback := stat_eq_of_stampsOf_eq hagree.symm hstamps.symm hp' hu
      rw [ht] at hback
      exact absurd hback (by simp)

/-- Layer files with the same stamps lead to the same in both trees, from
    whatever spelling of the directory they are named. -/
theorem Design.toOption_stat_layer_eq (hagree : t.Agree u) (d : Design)
    (hdir : dir.same cwd = true) (hdir' : dir'.same cwd = true) {paths paths' : List Path}
    (hlayers : ∀ p ∈ d.layerPaths dir, p ∈ paths) (hlayers' : ∀ p ∈ d.layerPaths dir', p ∈ paths')
    (hstamps : Engine.stampsOf t paths = Engine.stampsOf u paths') {layer : Text}
    (hlayer : layer ∈ d.layers) :
    (t.stat (cwd.join ⟨layer⟩)).toOption = (u.stat (cwd.join ⟨layer⟩)).toOption := by
  have hp : dir.join ⟨layer⟩ ∈ paths := hlayers _ (List.mem_map.mpr ⟨layer, hlayer, rfl⟩)
  have hp' : dir'.join ⟨layer⟩ ∈ paths' := hlayers' _ (List.mem_map.mpr ⟨layer, hlayer, rfl⟩)
  -- the inputs name the path from `dir`, which leads where the path from `cwd` does
  cases ht : t.stat (cwd.join ⟨layer⟩) with
  | ok node =>
    rw [← FileTree.stat_join_of_same t hdir] at ht
    have hu := Engine.stat_eq_of_stampsOf_eq hagree hstamps hp ht
    rw [FileTree.stat_join_of_same u hdir] at hu
    rw [hu]
  | error fault =>
    cases hu : u.stat (cwd.join ⟨layer⟩) with
    | error fault' => rfl
    | ok node =>
      rw [← FileTree.stat_join_of_same u hdir'] at hu
      have hback := Engine.stat_eq_of_stampsOf_eq hagree.symm hstamps.symm hp' hu
      rw [FileTree.stat_join_of_same t hdir', ht] at hback
      exact absurd hback (by simp)

theorem Design.layerClasses_eq {d : Design}
    (h : ∀ layer ∈ d.layers, t.found? (cwd.join ⟨layer⟩) = u.found? (cwd.join ⟨layer⟩)) :
    d.layerClasses t cwd = d.layerClasses u cwd := by
  unfold layerClasses layerPaths
  rw [List.flatMap_map, List.flatMap_map, List.flatMap_def, List.flatMap_def]
  refine congrArg List.flatten (List.map_congr_left fun layer hlayer => ?_)
  rw [FileTree.stylesheet?_of_found? (h layer hlayer) rfl]

/-- A catalogue is made from the design file and, where they count, its layer files. -/
theorem Generator.toOption_fromDesign_congr (hsame : s.designFile? t cwd = s.designFile? u cwd)
    (hdesign : ∀ path, s.designFile? t cwd = some path → t.found? path = u.found? path)
    (hlayers : ∀ path d, s.designFile? t cwd = some path → Design.load t path = .ok d →
      Design.load u path = .ok d → s.includeGenerated = true →
        ∀ layer ∈ d.layers, t.found? (cwd.join ⟨layer⟩) = u.found? (cwd.join ⟨layer⟩)) :
    (fromDesign t s cwd).toOption = (fromDesign u s cwd).toOption := by
  rw [toOption_fromDesign, toOption_fromDesign, ← hsame]
  cases hpath : s.designFile? t cwd with
  | none =>
    -- the catalogue of the empty design, which has no layers
    have hempty : ∀ w : FileTree, Design.layerClasses {} w cwd = [] := fun _ => rfl
    simp only [Design.catalogueFor, hempty]
  | some path =>
    have hloads := FileTree.toOption_load_of_found? (hdesign path hpath) rfl
    simp only
    rw [← hloads]
    cases hload : Design.load t path with
    | error fault => rfl
    | ok d =>
      have hload' : Design.load u path = .ok d := by
        rw [hload] at hloads
        cases hu : Design.load u path with
        | error fault => simp [hu, Except.toOption] at hloads
        | ok d' =>
          simp only [hu, Except.toOption, Option.some.injEq] at hloads
          rw [hloads]
      have hcatalogue : d.catalogueFor s t cwd = d.catalogueFor s u cwd := by
        unfold Design.catalogueFor
        cases hgenerated : s.includeGenerated with
        | false => rfl
        | true => rw [Design.layerClasses_eq (hlayers path d hpath hload hload' hgenerated)]
      exact congrArg some hcatalogue

namespace CatalogueSettings

theorem mem_inputsFrom_design {path : Path} (h : s.designFile? t cwd = some path) (dir : Path) :
    path ∈ s.inputsFrom t cwd dir := by
  unfold inputsFrom
  rw [h]
  cases s.includeGenerated <;> simp

/-- Where they count, the layer files of the design are among the inputs. -/
theorem mem_inputsFrom_layer {path : Path} {d : Design} (h : s.designFile? t cwd = some path)
    (hload : Design.load t path = .ok d) (hgenerated : s.includeGenerated = true) (dir : Path) :
    ∀ p ∈ d.layerPaths dir, p ∈ s.inputsFrom t cwd dir := by
  intro p hp
  simp only [inputsFrom, h, hgenerated, if_true]
  rw [FileTree.layersAt, hload]
  exact List.mem_cons_of_mem _ hp

end CatalogueSettings

/-- **The stamps of its inputs tell a catalogue.**  In trees that agree the same
    stamps give the same catalogue, or in both trees none can be made. -/
theorem Generator.toOption_fromDesign_eq (hagree : t.Agree u)
    (hdir : dir.same cwd = true) (hdir' : dir'.same cwd = true)
    (hstamps : Engine.stampsOf t (s.inputsFrom t cwd dir)
      = Engine.stampsOf u (s.inputsFrom u cwd dir')) :
    (fromDesign t s cwd).toOption = (fromDesign u s cwd).toOption := by
  have hsame := CatalogueSettings.designFile?_eq hstamps
  refine toOption_fromDesign_congr hsame (fun path h => ?_)
    (fun path d h hload hload' hgenerated layer hlayer => ?_)
  · rw [FileTree.found?, FileTree.found?, Engine.toOption_stat_eq hagree hstamps
      (CatalogueSettings.mem_inputsFrom_design h dir)
      (CatalogueSettings.mem_inputsFrom_design (hsame ▸ h) dir')]
  · rw [FileTree.found?, FileTree.found?, d.toOption_stat_layer_eq hagree hdir hdir'
      (CatalogueSettings.mem_inputsFrom_layer h hload hgenerated dir)
      (CatalogueSettings.mem_inputsFrom_layer (hsame ▸ h) hload' hgenerated dir') hstamps hlayer]

end

end ClassLint
