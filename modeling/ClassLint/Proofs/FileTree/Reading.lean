/-
  ClassLint.Proofs.FileTree.Reading

  Reading a file depends on what stands at the end of its path, and on nothing
  else of the tree.  Two trees agree if a path with the same time of change in
  both leads to the same file or directory in both; in such trees files that
  were not changed read the same.
-/

import ClassLint.Catalogue.Generator
import ClassLint.Proofs.FileTree.Spelling

namespace ClassLint

/-- The text of a file; a directory has none. -/
def Node.text? : Node → Option Text
  | file content _ => Text.ofBytes? content
  | directory _ => none

/-- The design that a text stands for, in the format that the extension tells. -/
def Design.ofText? (extension? : Option Text) (text : Text) : Option Design :=
  if extension? = some "yaml".toList ∨ extension? = some "yml".toList then
    (Yaml.parse? text).bind (·.decode? (decode false))
  else if extension? = some "json".toList then
    (Json.read? Document.form text).bind (·.decode? (decode true))
  else none

namespace FileTree

/-! ## Reading -/

theorem toOption_read (t : FileTree) (p : Path) :
    (t.read p).toOption = (t.stat p).toOption.bind Node.text? := by
  unfold read
  cases t.stat p with
  | error fault => rfl
  | ok node =>
    cases node with
    | directory m => rfl
    | file content m =>
      simp only [bind, Except.bind, Except.toOption, Option.bind, Node.text?]
      cases Text.ofBytes? content <;> rfl

/-- Only a file can be read. -/
theorem stat_of_read {t : FileTree} {p : Path} {text : Text} (h : t.read p = .ok text) :
    ∃ content m, t.stat p = .ok (.file content m) := by
  unfold read at h
  cases hstat : t.stat p with
  | error fault =>
    rw [hstat] at h
    exact absurd h (by simp [bind, Except.bind])
  | ok node =>
    cases node with
    | file content m => exact ⟨content, m, rfl⟩
    | directory m =>
      rw [hstat] at h
      exact absurd h (by simp [bind, Except.bind])

theorem stylesheet?_eq (t : FileTree) (p : Path) :
    t.stylesheet? p = (t.read p).toOption.bind fun source =>
      (Stylesheet.scan p.extension? source).toOption := by
  unfold stylesheet?
  cases t.read p with
  | error fault => rfl
  | ok source =>
    simp only [Except.toOption, Option.bind]
    cases Stylesheet.scan p.extension? source <;> rfl

theorem toOption_load (t : FileTree) (p : Path) :
    (Design.load t p).toOption = (t.read p).toOption.bind (Design.ofText? p.extension?) := by
  unfold Design.load load readConfig Design.ofText?
  cases t.read p with
  | error fault =>
    by_cases hyaml : p.extension? = some "yaml".toList ∨ p.extension? = some "yml".toList
    · simp only [if_pos hyaml, bind, Except.bind, Except.toOption, Option.bind]
    · by_cases hjson : p.extension? = some "json".toList
      · simp only [if_neg hyaml, if_pos hjson, bind, Except.bind, Except.toOption, Option.bind]
      · simp only [if_neg hyaml, if_neg hjson, Except.toOption, Option.bind]
  | ok text =>
    by_cases hyaml : p.extension? = some "yaml".toList ∨ p.extension? = some "yml".toList
    · simp only [if_pos hyaml, bind, Except.bind]
      cases hread : (Yaml.parse? text).bind (·.decode? (Design.decode false)) <;>
        simp [Except.toOption, hread]
    · by_cases hjson : p.extension? = some "json".toList
      · simp only [if_neg hyaml, if_pos hjson, bind, Except.bind]
        cases hread : (Json.read? Document.form text).bind (·.decode? (Design.decode true)) <;>
          simp [Except.toOption, hread]
      · simp only [if_neg hyaml, if_neg hjson, Except.toOption, Option.bind]

/-- A design that can be loaded is in a file. -/
theorem stat_of_load {t : FileTree} {p : Path} {d : Design} (h : Design.load t p = .ok d) :
    ∃ content m, t.stat p = .ok (.file content m) := by
  have hload := toOption_load t p
  rw [h] at hload
  cases hread : t.read p with
  | error fault =>
    rw [hread] at hload
    exact absurd hload (by simp [Except.toOption])
  | ok text => exact stat_of_read hread

/-! ## The same at the end of two paths -/

/-- What stands at the end of a path, whenever it was changed last. -/
def found? (t : FileTree) (p : Path) : Option Node :=
  (t.stat p).toOption.map (Node.setModified 0)

theorem toOption_read_eq_found? (t : FileTree) (p : Path) :
    (t.read p).toOption = (t.found? p).bind Node.text? := by
  rw [toOption_read, found?]
  cases (t.stat p).toOption with
  | none => rfl
  | some node => cases node <;> rfl

section

variable {t u : FileTree} {p q : Path}

theorem stylesheet?_of_found? (hfound : t.found? p = u.found? q)
    (hextension : p.extension? = q.extension?) : t.stylesheet? p = u.stylesheet? q := by
  rw [stylesheet?_eq, stylesheet?_eq, toOption_read_eq_found?, toOption_read_eq_found?, hfound,
    hextension]

theorem toOption_load_of_found? (hfound : t.found? p = u.found? q)
    (hextension : p.extension? = q.extension?) :
    (Design.load t p).toOption = (Design.load u q).toOption := by
  rw [toOption_load, toOption_load, toOption_read_eq_found?, toOption_read_eq_found?, hfound,
    hextension]

theorem stylesheet?_congr (hstat : (t.stat p).toOption = (u.stat q).toOption)
    (hextension : p.extension? = q.extension?) : t.stylesheet? p = u.stylesheet? q :=
  stylesheet?_of_found? (by rw [found?, found?, hstat]) hextension

theorem toOption_load_congr (hstat : (t.stat p).toOption = (u.stat q).toOption)
    (hextension : p.extension? = q.extension?) :
    (Design.load t p).toOption = (Design.load u q).toOption :=
  toOption_load_of_found? (by rw [found?, found?, hstat]) hextension

end

/-! ## Trees that agree -/

/-- A path with the same time of change in both trees leads to the same file or
    directory in both. -/
def Agree (t u : FileTree) : Prop :=
  ∀ p a b, t.stat p = .ok a → u.stat p = .ok b → a.modified = b.modified → a = b

theorem Agree.refl (t : FileTree) : t.Agree t := by
  intro p a b ha hb _
  rw [ha] at hb
  exact Except.ok.inj hb

theorem Agree.symm {t u : FileTree} (h : t.Agree u) : u.Agree t := by
  intro p a b ha hb hmodified
  exact (h p b a hb ha hmodified.symm).symm

/-- Everything that stands in a tree, the root included. -/
def standing (t : FileTree) : List Node := .directory 0 :: t.nodes.toList.map (·.2)

theorem mem_standing_of_stat {t : FileTree} {p : Path} {node : Node} (h : t.stat p = .ok node) :
    node ∈ t.standing := by
  obtain ⟨-, place, -, hnode⟩ := stat_eq_ok h
  unfold node? at hnode
  split at hnode
  · have hroot : node = .directory 0 := by simpa using hnode.symm
    rw [hroot]
    exact List.mem_cons_self
  · have hmem : (place, node) ∈ t.nodes.toList :=
      Std.TreeMap.mem_toList_iff_getElem?_eq_some.mpr hnode
    exact List.mem_cons_of_mem _ (List.mem_map.mpr ⟨_, hmem, rfl⟩)

/-- Two trees agree if directories alone have a time in common. -/
theorem agree_of_times {t u : FileTree}
    (h : ∀ a ∈ t.standing, ∀ b ∈ u.standing, a.modified = b.modified →
      a.isFile = false ∧ b.isFile = false) : t.Agree u := by
  intro p a b ha hb hmodified
  obtain ⟨hafile, hbfile⟩ :=
    h a (mem_standing_of_stat ha) b (mem_standing_of_stat hb) hmodified
  cases a with
  | file content m => exact absurd hafile (by simp [Node.isFile])
  | directory m =>
    cases b with
    | file content m' => exact absurd hbfile (by simp [Node.isFile])
    | directory m' => exact congrArg Node.directory hmodified

end FileTree

end ClassLint
