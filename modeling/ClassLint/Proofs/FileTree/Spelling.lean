/-
  ClassLint.Proofs.FileTree.Spelling

  Two spellings of a path lead to the same place.  An idle piece only asks that
  it stands in a directory, and so does every piece behind it; idle pieces
  matter at the end of a path alone, where a file has none.
-/

import ClassLint.FileTree
import ClassLint.Proofs.Path.Spelling

namespace ClassLint.FileTree

/-! ## Steps -/

theorem step_of_isIdle (t : FileTree) (place : Place) {piece : Text}
    (h : Path.isIdle piece = true) : t.step place piece = t.step place [] := by
  have hempty : Path.isIdle [] = true := by decide
  unfold step
  rw [h, hempty]
  rfl

/-- An idle step stays where it is, if it can be taken. -/
theorem eq_of_step_idle {t : FileTree} {place target : Place}
    (h : t.step place [] = .ok target) : target = place ∧ ∃ m, t.node? place = some (.directory m) := by
  unfold step at h
  split at h
  · exact absurd h (by simp)
  · exact absurd h (by simp)
  · next m hnode =>
    have hempty : Path.isIdle [] = true := by decide
    rw [hempty] at h
    simp only [if_true, Except.ok.injEq] at h
    exact ⟨h.symm, m, hnode⟩

/-- An idle step before another one makes no difference. -/
theorem step_idle_bind (t : FileTree) (place : Place) (piece : Text) :
    (t.step place [] >>= fun target => t.step target piece) = t.step place piece := by
  have hempty : Path.isIdle [] = true := by decide
  unfold step
  cases hnode : t.node? place with
  | none => rfl
  | some node =>
    cases node with
    | file => rfl
    | directory m => simp [hempty, hnode, bind, Except.bind]

theorem walk_cons (t : FileTree) (place : Place) (piece : Text) (rest : List Text) :
    t.walk place (piece :: rest) = t.step place piece >>= fun target => t.walk target rest := rfl

theorem walk_append (t : FileTree) (place : Place) (a b : List Text) :
    t.walk place (a ++ b) = t.walk place a >>= fun target => t.walk target b := by
  unfold walk
  rw [List.foldlM_append]

theorem walk_singleton (t : FileTree) (place : Place) (piece : Text) :
    t.walk place [piece] = t.step place piece := by
  rw [walk_cons]
  cases t.step place piece <;> rfl

/-! ## Whole paths -/

/-- Idle pieces before another piece make no difference. -/
theorem walk_idle_cons (t : FileTree) (place : Place) {piece : Text}
    (h : Path.isIdle piece = true) (next : Text) (rest : List Text) :
    t.walk place (piece :: next :: rest) = t.walk place (next :: rest) := by
  rw [walk_cons, step_of_isIdle t place h, walk_cons]
  have hbind := step_idle_bind t place next
  cases hstep : t.step place [] with
  | error fault =>
    rw [hstep] at hbind
    rw [← hbind]
    rfl
  | ok target =>
    obtain ⟨rfl, -⟩ := eq_of_step_idle hstep
    rfl

/-- Only the steps of a path matter, and whether it ends with an idle piece. -/
theorem walk_norm (t : FileTree) (pieces : List Text) (place : Place) :
    t.walk place (Path.norm pieces) = t.walk place pieces := by
  induction pieces generalizing place with
  | nil => rfl
  | cons piece rest ih =>
    cases rest with
    | nil =>
      cases hidle : Path.isIdle piece with
      | true =>
        have hnorm : Path.norm [piece] = [[]] := by simp [Path.norm, Path.steps, hidle]
        rw [hnorm, walk_singleton, walk_singleton, step_of_isIdle t place hidle]
      | false =>
        have hnorm : Path.norm [piece] = [piece] := by simp [Path.norm, Path.steps, hidle]
        rw [hnorm]
    | cons next rest =>
      have hsplit : Path.norm (piece :: next :: rest)
          = Path.steps [piece] ++ Path.norm (next :: rest) :=
        Path.norm_append (a := [piece]) (List.cons_ne_nil next rest)
      cases hidle : Path.isIdle piece with
      | true =>
        have hsteps : Path.steps [piece] = [] := by simp [Path.steps, hidle]
        rw [hsplit, hsteps, List.nil_append, ih, walk_idle_cons t place hidle]
      | false =>
        have hsteps : Path.steps [piece] = [piece] := by simp [Path.steps, hidle]
        rw [hsplit, hsteps, List.singleton_append, walk_cons, walk_cons]
        simp only [ih]

theorem stat_eq (t : FileTree) (p : Path) :
    t.stat p = t.locate p >>= fun place =>
      match t.node? place with
      | some node => .ok node
      | none => .error .notFound := rfl

/-- A relative path joined to two spellings of a directory leads to the same
    place. -/
theorem stat_join_of_same (t : FileTree) {p q : Path} (h : p.same q = true) (r : Path) :
    t.stat (p.join r) = t.stat (q.join r) := by
  cases hr : r.isAbsolute with
  | true => simp [Path.join, hr]
  | false =>
    obtain ⟨hlead, hsteps⟩ := Path.same_iff_lead_steps h
    -- following a path takes its emptiness, its start and its pieces up to `norm`
    have hempty : (p.join r).text = [] ↔ (q.join r).text = [] := by
      rw [Path.join_text_eq_nil_iff hr, Path.join_text_eq_nil_iff hr, Path.text_eq_nil_of_same h]
    have hstart : t.start (p.join r) = t.start (q.join r) := by
      unfold start
      rw [Path.isAbsolute_join hr, Path.isAbsolute_join hr, Path.isAbsolute_of_lead hlead]
    have hwalk : ∀ place, t.walk place (Path.pieces (p.join r).text)
        = t.walk place (Path.pieces (q.join r).text) := by
      intro place
      rw [← walk_norm, ← walk_norm t (Path.pieces (q.join r).text), Path.norm_pieces_join p r hr,
        Path.norm_pieces_join q r hr, hsteps]
    have hlocate : t.locate (p.join r) = t.locate (q.join r) := by
      unfold locate
      rw [hstart, hwalk]
      simp only [List.isEmpty_iff, hempty]
    rw [stat_eq, stat_eq, hlocate]

/-! ## Paths to files -/

/-- A path that leads somewhere leads there by its steps alone; if it ends with
    an idle piece, there is a directory. -/
theorem walk_eq_ok {t : FileTree} {place target : Place} {pieces : List Text}
    (h : t.walk place pieces = .ok target) :
    t.walk place (Path.steps pieces) = .ok target
      ∧ (pieces.getLast?.any Path.isIdle = true → ∃ m, t.node? target = some (.directory m)) := by
  rw [← walk_norm, Path.norm] at h
  by_cases hlast : pieces.getLast?.any Path.isIdle = true
  · rw [if_pos hlast, walk_append] at h
    cases hsteps : t.walk place (Path.steps pieces) with
    | error fault =>
      rw [hsteps] at h
      exact absurd h (by simp [bind, Except.bind])
    | ok reached =>
      rw [hsteps] at h
      have hidle : t.step reached [] = .ok target := by
        rw [← walk_singleton]
        exact h
      obtain ⟨rfl, hdirectory⟩ := eq_of_step_idle hidle
      exact ⟨rfl, fun _ => hdirectory⟩
  · rw [if_neg hlast, List.append_nil] at h
    exact ⟨h, fun hidle => absurd hidle hlast⟩

/-- A path that ends with a step is followed by its steps alone. -/
theorem walk_eq_walk_steps (t : FileTree) (place : Place) {pieces : List Text}
    (h : pieces.getLast?.any Path.isIdle = false) :
    t.walk place pieces = t.walk place (Path.steps pieces) := by
  rw [← walk_norm, Path.norm, h]
  simp

theorem stat_eq_ok {t : FileTree} {p : Path} {node : Node} (h : t.stat p = .ok node) :
    p.text ≠ [] ∧ ∃ place, t.walk (t.start p) (Path.pieces p.text) = .ok place
      ∧ t.node? place = some node := by
  rw [stat_eq, locate] at h
  cases hempty : p.text.isEmpty with
  | true => simp [hempty, bind, Except.bind] at h
  | false =>
    refine ⟨by simpa using hempty, ?_⟩
    simp only [hempty, Bool.false_eq_true, if_false] at h
    cases hwalk : t.walk (t.start p) (Path.pieces p.text) with
    | error fault => simp [hwalk, bind, Except.bind] at h
    | ok place =>
      refine ⟨place, rfl, ?_⟩
      cases hnode : t.node? place with
      | none => simp [hwalk, hnode, bind, Except.bind] at h
      | some found => simpa [hwalk, hnode, bind, Except.bind] using h

theorem stat_of_walk {t : FileTree} {p : Path} {place : Place} {node : Node}
    (hempty : p.text ≠ []) (hwalk : t.walk (t.start p) (Path.pieces p.text) = .ok place)
    (hnode : t.node? place = some node) : t.stat p = .ok node := by
  rw [stat_eq, locate]
  simp [hempty, hwalk, hnode, bind, Except.bind]

/-- What another spelling of a file's path leads to, in whatever tree, the path
    itself leads to. -/
theorem stat_of_same_file {t u : FileTree} {p q : Path} (h : p.same q = true)
    {content : ByteArray} {m : Int} (hp : t.stat p = .ok (.file content m)) {node : Node}
    (hq : u.stat q = .ok node) : u.stat p = .ok node := by
  obtain ⟨hlead, hsteps⟩ := Path.same_iff_lead_steps h
  obtain ⟨hempty, place, hwalk, hfile⟩ := stat_eq_ok hp
  obtain ⟨-, target, hwalk', hnode⟩ := stat_eq_ok hq
  -- a file's path ends with a step, for behind an idle piece stands a directory
  have hlast : (Path.pieces p.text).getLast?.any Path.isIdle = false := by
    by_cases hidle : (Path.pieces p.text).getLast?.any Path.isIdle = true
    · obtain ⟨m', hdirectory⟩ := (walk_eq_ok hwalk).2 hidle
      rw [hfile] at hdirectory
      exact absurd hdirectory (by simp)
    · simpa using hidle
  have hstart : u.start p = u.start q := by
    unfold start
    rw [Path.isAbsolute_of_lead hlead]
  refine stat_of_walk hempty ?_ hnode
  rw [walk_eq_walk_steps u _ hlast, hsteps, hstart]
  exact (walk_eq_ok hwalk').1

end ClassLint.FileTree
