/-
  ClassLint.Proofs.Catalogue.Coverage

  What a catalogue can depend on.  A generator that remembers nothing names every
  file that its catalogue is made from: trees in which it names the same files,
  and in which each of them is the same, have the same catalogue, whatever else
  stands in them and whenever the files were changed.
-/

import ClassLint.Proofs.Catalogue.Inputs

namespace ClassLint

/-! ## The inputs of a new generator -/

section

variable {t u : FileTree} {s : CatalogueSettings} {cwd : Path}

/-- Without a memo the layer files are those of the design as it is now. -/
theorem Generator.inputs_anew (t : FileTree) (s : CatalogueSettings) (cwd : Path) :
    (design.inputs none t s cwd).1 = s.inputsFrom t cwd cwd := by
  have hnone : ∀ m, (none : Option LayerMemo) = some m → ∃ w, m.ReadIn w ∧ w.Agree t := by simp
  obtain ⟨⟨dir, -, hdir, heq⟩, -⟩ := inputs_spec hnone s cwd
  rcases hdir with rfl | ⟨m, hm, -⟩
  · exact heq
  · exact absurd hm (by simp)

/-- The first of the inputs is the design file. -/
theorem CatalogueSettings.head?_inputsFrom (s : CatalogueSettings) (t : FileTree)
    (cwd dir : Path) : (s.inputsFrom t cwd dir).head? = s.designFile? t cwd := by
  unfold inputsFrom
  cases s.designFile? t cwd with
  | none => rfl
  | some path => cases s.includeGenerated <;> rfl

/-! ## Coverage -/

/-- **The inputs cover what a catalogue is made from.**  Where a generator that
    remembers nothing names the same files in two trees, and at each of them the
    same stands in both, or nothing, it makes the same catalogue from both, or
    from neither. -/
theorem Generator.generate_eq_of_inputs
    (hinputs : (design.inputs none t s cwd).1 = (design.inputs none u s cwd).1)
    (hfound : ∀ p ∈ (design.inputs none t s cwd).1, t.found? p = u.found? p) :
    (design.generate t s cwd).toOption = (design.generate u s cwd).toOption := by
  rw [inputs_anew, inputs_anew] at hinputs
  rw [inputs_anew] at hfound
  have hsame : s.designFile? t cwd = s.designFile? u cwd := by
    rw [← s.head?_inputsFrom t cwd cwd, hinputs, s.head?_inputsFrom]
  refine toOption_fromDesign_congr hsame (fun path h => ?_)
    (fun path d h hload _ hgenerated layer hlayer => ?_)
  · exact hfound _ (CatalogueSettings.mem_inputsFrom_design h cwd)
  · exact hfound _ (CatalogueSettings.mem_inputsFrom_layer h hload hgenerated cwd _
      (List.mem_map.mpr ⟨layer, hlayer, rfl⟩))

end

/-! ## A project written again -/

instance : DecidableEq Node
  | .file content m, .file content' m' =>
    decidable_of_iff (content.data = content'.data ∧ m = m')
      (by rw [Node.file.injEq, ByteArray.ext_iff])
  | .directory m, .directory m' => decidable_of_iff (m = m') (by rw [Node.directory.injEq])
  | .file .., .directory _ => isFalse (by simp)
  | .directory _, .file .. => isFalse (by simp)

/-- A tree of some files, with the times of their last change. -/
def FileTree.ofFiles (files : List (String × String × Int)) : FileTree :=
  files.foldl
    (fun t file =>
      (t.write (.ofString file.1) (Text.toBytes file.2.1.toList) file.2.2).toOption.getD t)
    (.ofWorkingDirectory [] 5)

/-- A design with two layer files, of which one is missing. -/
def FileTree.layered : FileTree :=
  .ofFiles [("tailwind.config.json", "\x7b\"layers\": [\"a.css\", \"b.css\"]\x7d", 7),
    ("a.css", "@layer c \x7b .b \x7b\x7d \x7d", 8)]

/-- The same written again, behind another design that is not looked at and a
    stylesheet that nothing names. -/
def FileTree.rewritten : FileTree :=
  .ofFiles [("tailwind.config.yaml", "safelist: [x]", 1), ("c.css", ".c \x7b\x7d", 2),
    ("tailwind.config.json", "\x7b\"layers\": [\"a.css\", \"b.css\"]\x7d", 3),
    ("a.css", "@layer c \x7b .b \x7b\x7d \x7d", 4)]

theorem Generator.generate_layered_eq_rewritten :
    ((design.inputs none .layered { includeGenerated := true } (.ofString ".")).1
        = (design.inputs none .rewritten { includeGenerated := true } (.ofString ".")).1
      ∧ ∀ p ∈ (design.inputs none .layered { includeGenerated := true } (.ofString ".")).1,
          FileTree.layered.found? p = FileTree.rewritten.found? p)
    ∧ (design.generate .layered { includeGenerated := true } (.ofString ".")).toOption
        = (design.generate .rewritten { includeGenerated := true } (.ofString ".")).toOption := by
  have hinputs : (design.inputs none .layered { includeGenerated := true } (.ofString ".")).1
      = (design.inputs none .rewritten { includeGenerated := true } (.ofString ".")).1 := by
    decide +kernel
  have hfound : ∀ p ∈ (design.inputs none .layered { includeGenerated := true } (.ofString ".")).1,
      FileTree.layered.found? p = FileTree.rewritten.found? p := by
    decide +kernel
  exact ⟨⟨hinputs, hfound⟩, generate_eq_of_inputs hinputs hfound⟩

end ClassLint
