/-
  ClassLint.Proofs.Engine.Transparency

  What an engine remembers does not show in what it answers.  Resolved files are
  never given out again here, and as long as a file with the same time of change
  is the same file, a registry that is held under a key is the one that would be
  made on the spot.

  One thing does show, in the key of a registry alone.  Layer files that are
  remembered for a working directory are named again for another spelling of
  that directory, but by the old one.
-/

import ClassLint.Proofs.Engine.Instances
import ClassLint.Proofs.Engine.Keys

namespace ClassLint

open Fingerprint (Section Fit Told)

/-! ## Files without a lifetime -/

/-- A resolution that lives no time is made anew. -/
theorem ResolutionCache.resolve_of_lifetime_zero {cache : ResolutionCache}
    (h : cache.lifetime = 0) (now : Nat) (t : FileTree) (patterns : List Text) (cwd : Path) :
    (cache.resolve now t patterns cwd).1.value = filesNow t patterns cwd
      ∧ (cache.resolve now t patterns cwd).2.lifetime = 0 := by
  unfold resolve
  cases patterns with
  | nil => exact ⟨rfl, h⟩
  | cons pattern rest =>
    -- no resolution is younger than a lifetime of zero
    have hlookup : cache.lookup? now (pattern :: rest) cwd = none := by
      unfold lookup?
      split
      · simp [h]
      · rfl
    rw [hlookup]
    exact ⟨rfl, h⟩

/-! ## Demands that see the files as they are -/

namespace Demand

/-- The demand sees the files as they stand, and names the inputs of the
    catalogue from some spelling of the working directory. -/
structure Faithful (d : Demand) : Prop where
  generator : d.engine.generator = .design
  extractor : d.engine.extractor = .selectors
  files : d.files
    = ResolutionCache.filesNow d.moment.tree d.config.stylesheets d.config.cwd
  stamps : ∀ s, d.config.catalogue.settings? = some s →
    ∃ dir, dir.same d.config.cwd = true
      ∧ d.stamps
        = Engine.stampsOf d.moment.tree (s.inputsFrom d.moment.tree d.config.cwd dir)

/-- The same demand of a new engine. -/
def anew (d : Demand) : Demand := { d with engine := .fresh .design 0 }

/-- A new engine finds the same files. -/
theorem Faithful.files_anew {d : Demand} (h : d.Faithful) : d.files = d.anew.files :=
  h.files.trans (ResolutionCache.resolve_of_lifetime_zero rfl _ _ _ _).1.symm

/-- A new engine has no registry to give out but the one that it makes. -/
theorem registry_anew (d : Demand) : d.anew.registry = d.anew.built := by
  rcases d.anew.registry_cases.1 with ⟨entry, hentry, -⟩ | hbuilt
  · exact absurd hentry (by simp [anew, Engine.fresh, SlotCache.empty])
  · exact hbuilt

/-- Where trees agree, demands with the same sections are for registries of the
    same contents. -/
theorem contents_built_eq {d d' : Demand} (hd : d.Faithful) (hd' : d'.Faithful)
    (hagree : d.moment.tree.Agree d'.moment.tree) (h : d.sections = d'.sections) :
    d.built.contents = d'.built.contents := by
  obtain ⟨hfiles, hallow, hblock, hignore, hsettings, hstamps, hcwd⟩ := eq_of_sections_eq h
  have hrequest : Engine.request d.config d.files = Engine.request d'.config d'.files := by
    unfold Engine.request
    rw [hfiles, hallow, hblock, hignore, hsettings, hcwd]
  unfold built
  rw [hd.generator, hd'.generator, hd.extractor, hd'.extractor, ← hrequest, RegistryRequest.contents_build,
    RegistryRequest.contents_build]
  refine RegistryRequest.build_eq ?_ ?_ .selectors
  · -- a file that both found has the same time of change in both trees
    intro p hp
    obtain ⟨f, hf, rfl⟩ := List.mem_map.mp hp
    obtain ⟨content, hstat⟩ := ResolutionCache.mem_filesNow (hd.files ▸ hf)
    obtain ⟨content', hstat'⟩ := ResolutionCache.mem_filesNow (hd'.files ▸ hfiles ▸ hf)
    rw [hstat, hstat', hagree f.path _ _ hstat hstat' rfl]
  · -- the inputs tell the catalogue, from whatever spelling either names them
    intro s hs
    have hs' : d'.config.catalogue.settings? = some s := hsettings ▸ hs
    obtain ⟨dir, hdir, heq⟩ := hd.stamps s hs
    obtain ⟨dir', hdir', heq'⟩ := hd'.stamps s hs'
    rw [heq, heq', ← hcwd] at hstamps
    rw [← hcwd] at hdir'
    exact Generator.toOption_fromDesign_eq hagree hdir hdir' hstamps

end Demand

/-! ## Engines that remember the past -/

/-- Everything that the engine remembers was right when one of the demands `past`
    was made. -/
structure Engine.Sound (e : Engine) (past : List Demand) : Prop where
  generator : e.generator = .design
  extractor : e.extractor = .selectors
  lifetime : e.files.lifetime = 0
  tokens : e.tokens.Right
  registries : ∀ entry ∈ e.registries.entries,
    ∃ d ∈ past, d.Faithful ∧ entry.2.1 = d.key ∧ entry.2.2.value = d.built
  layers : ∀ memo, e.layers = some memo →
    ∃ d ∈ past, memo.ReadIn d.moment.tree ∧ memo.cwd = d.config.cwd

namespace Engine

theorem sound_fresh (past : List Demand) : (fresh .design 0).Sound past where
  generator := rfl
  extractor := rfl
  lifetime := rfl
  tokens := TokenMemo.right_empty
  registries entry hentry := absurd hentry (by simp [fresh, SlotCache.empty])
  layers memo hmemo := absurd hmemo (by simp [fresh])

theorem Sound.clear {e : Engine} {past : List Demand} (h : e.Sound past) : e.clear.Sound past where
  generator := h.generator
  extractor := h.extractor
  lifetime := h.lifetime
  tokens := TokenMemo.right_clear e.tokens
  registries entry hentry := absurd hentry (by simp [Engine.clear, SlotCache.clear])
  layers := h.layers

theorem Sound.keyed {e : Engine} {past : List Demand} (h : e.Sound past) : e.Keyed := by
  intro entry hentry
  obtain ⟨d, -, -, hkey, hvalue⟩ := h.registries entry hentry
  rw [hvalue, hkey, Demand.key?_built]

end Engine

section

variable {d : Demand} {past : List Demand}

/-- The inputs that a demand names, and the layer files that are remembered
    afterwards. -/
theorem Demand.stamps_spec (h : d.engine.Sound past)
    (hagree : ∀ d' ∈ past, d'.moment.tree.Agree d.moment.tree) :
    (∀ s, d.config.catalogue.settings? = some s →
      ∃ dir, dir.same d.config.cwd = true
        ∧ (dir = d.config.cwd ∨ ∃ d' ∈ past, dir = d'.config.cwd)
        ∧ d.stamps
          = Engine.stampsOf d.moment.tree (s.inputsFrom d.moment.tree d.config.cwd dir))
      ∧ (d.after.layers = d.engine.layers
        ∨ ∃ m, d.after.layers = some m ∧ m.ReadIn d.moment.tree ∧ m.cwd = d.config.cwd) := by
  rw [after_layers, stamps]
  unfold Engine.catalogueInputs
  cases hsettings : d.config.catalogue.settings? with
  | none => exact ⟨fun s hs => absurd hs (by simp), Or.inl rfl⟩
  | some s =>
    have hmemo : ∀ m, d.engine.layers = some m →
        ∃ w, m.ReadIn w ∧ w.Agree d.moment.tree := by
      intro m hm
      obtain ⟨d', hd', hread, -⟩ := h.layers m hm
      exact ⟨d'.moment.tree, hread, hagree d' hd'⟩
    obtain ⟨⟨dir, hsame, hdir, hinputs⟩, hnext⟩ :=
      Generator.inputs_spec hmemo s d.config.cwd
    rw [h.generator]
    refine ⟨?_, hnext⟩
    intro s' hs'
    obtain rfl : s = s' := Option.some.inj hs'
    refine ⟨dir, hsame, ?_, by rw [hinputs]⟩
    rcases hdir with hdir | ⟨m, hm, hdir⟩
    · exact Or.inl hdir
    · obtain ⟨d', hd', -, hcwd⟩ := h.layers m hm
      exact Or.inr ⟨d', hd', by rw [hdir, hcwd]⟩

theorem Engine.Sound.faithful (h : d.engine.Sound past)
    (hagree : ∀ d' ∈ past, d'.moment.tree.Agree d.moment.tree) : d.Faithful where
  generator := h.generator
  extractor := h.extractor
  files := (ResolutionCache.resolve_of_lifetime_zero h.lifetime _ _ _ _).1
  stamps s hs := by
    obtain ⟨dir, hsame, -, hstamps⟩ := (Demand.stamps_spec h hagree).1 s hs
    exact ⟨dir, hsame, hstamps⟩

/-- A demand keeps what is remembered sound. -/
theorem Engine.Sound.after (hd : d ∈ past) (h : d.engine.Sound past)
    (hagree : ∀ d' ∈ past, d'.moment.tree.Agree d.moment.tree) : d.after.Sound past where
  generator := h.generator
  extractor := h.extractor
  lifetime := (ResolutionCache.resolve_of_lifetime_zero h.lifetime _ _ _ _).2
  tokens := h.tokens
  registries entry hentry := by
    rcases d.registry_cases.2 entry hentry with hold | ⟨hkey, hvalue, hbuilt⟩
    · exact h.registries entry hold
    · exact ⟨d, hd, h.faithful hagree, hkey, by rw [hvalue, hbuilt]⟩
  layers memo hmemo := by
    rcases (Demand.stamps_spec h hagree).2 with hsame | ⟨m, hm, hread, hcwd⟩
    · exact h.layers memo (hsame ▸ hmemo)
    · obtain rfl : m = memo := Option.some.inj (hm.symm.trans hmemo)
      exact ⟨d, hd, hread, hcwd⟩

/-- The registry that is given out has the contents of the one that a new engine
    makes. -/
theorem Engine.Sound.contents_registry (h : d.engine.Sound past)
    (hagree : ∀ d' ∈ past, d'.moment.tree.Agree d.moment.tree)
    (hkeys : ∀ d' ∈ past, d'.key = d.key → d'.sections = d.sections) :
    d.registry.contents = d.anew.registry.contents := by
  have hbuilt : d.built.contents = d.anew.built.contents := by
    unfold Demand.built
    rw [RegistryRequest.contents_build, RegistryRequest.contents_build, h.generator,
      h.extractor, (h.faithful hagree).files_anew]
    rfl
  rw [d.registry_anew, ← hbuilt]
  rcases d.registry_cases.1 with ⟨entry, hentry, hkey, hvalue⟩ | hnew
  · -- the registry was made for a demand of the past, whose sections are the same
    obtain ⟨d', hd', hfaithful, hkey', hvalue'⟩ := h.registries entry hentry
    have hsections : d'.sections = d.sections := hkeys d' hd' (by rw [← hkey', hkey])
    rw [← hvalue, hvalue']
    exact Demand.contents_built_eq hfaithful (h.faithful hagree) (hagree d' hd') hsections
  · rw [hnew]

end

/-! ## Runs -/

namespace Session

/-- A session of a new engine, whose resolved files live no time. -/
def opened (t : FileTree) : Session := ⟨.fresh .design 0, t⟩

/-- Paths with the same time of change at two demands lead to the same file or
    directory at both. -/
def Timely (run : List Demand) : Prop :=
  ∀ d ∈ run, ∀ d' ∈ run, d.moment.tree.Agree d'.moment.tree

/-- The lists of sections that the keys of a run are made of, and those of the
    keys that new engines give beside it. -/
def keysOf (run : List Demand) : List (List Section) :=
  run.map (·.sections) ++ run.map (·.anew.sections)

theorem sections_mem_keysOf {run : List Demand} {d : Demand} (hd : d ∈ run) :
    d.sections ∈ keysOf run ∧ d.anew.sections ∈ keysOf run :=
  ⟨List.mem_append_left _ (List.mem_map.mpr ⟨d, hd, rfl⟩),
    List.mem_append_right _ (List.mem_map.mpr ⟨d, hd, rfl⟩)⟩

/-- After a run all that an engine remembers was right at some demand of it. -/
theorem sound_after {t : FileTree} {steps : List Step} {run : List Demand}
    (hrun : ∀ d ∈ (opened t).demands steps, d ∈ run) (hagree : Timely run) :
    ((opened t).after steps).engine.Sound run := by
  refine after_induction (P := fun e => e.Sound run) (fun e h => h.tokens) ?_
    (fun e h => h.clear) (Engine.sound_fresh run) steps ?_
  · intro e memo h hmemo
    exact ⟨h.generator, h.extractor, h.lifetime, hmemo, h.registries, h.layers⟩
  · intro d hd h
    have hmem := hrun d hd
    exact h.after hmem fun d' hd' => hagree d' hd' d hmem

end Session

namespace Demand

variable {d : Demand} {run : List Demand}

/-- The keys of a demand and of the same demand of a new engine are the same if
    the stamps of the inputs are. -/
theorem key_eq_anew_iff (h : d.Faithful) (hd : d ∈ run) (htold : Told (Session.keysOf run)) :
    d.key = d.anew.key ↔ d.stamps = d.anew.stamps := by
  constructor
  · intro hkey
    obtain ⟨hmem, hmem'⟩ := Session.sections_mem_keysOf hd
    have hsections : d.sections = d.anew.sections := htold.sections_eq hmem hmem' hkey
    exact (eq_of_sections_eq hsections).2.2.2.2.2.1
  · intro hstamps
    unfold key sections
    rw [hstamps, h.files_anew]
    rfl

/-- The answer from a registry that is given out has the contents of a new engine's
    answer; only the key can differ, and does if other inputs are named. -/
theorem answerFrom_anew (h : d.engine.Sound run) (hd : d ∈ run) (hagree : Session.Timely run)
    (htold : Told (Session.keysOf run)) (call : Call) :
    (call.answerFrom d.registry).contents = (call.answerFrom d.anew.registry).contents
      ∧ (call.answerFrom d.registry = call.answerFrom d.anew.registry
        ↔ (call.tokens? = none → d.stamps = d.anew.stamps)) := by
  have hagree' : ∀ d' ∈ run, d'.moment.tree.Agree d.moment.tree :=
    fun d' hd' => hagree d' hd' d hd
  have hcontents : d.registry.contents = d.anew.registry.contents := by
    refine h.contents_registry hagree' ?_
    intro d' hd' hkey
    exact htold.sections_eq (Session.sections_mem_keysOf hd').1
      (Session.sections_mem_keysOf hd).1 hkey
  have hkeys : d.registry.key? = d.anew.registry.key? ↔ d.stamps = d.anew.stamps := by
    rw [key?_registry h.keyed, key?_registry (Engine.sound_fresh run).keyed, Option.some.injEq]
    exact key_eq_anew_iff (h.faithful hagree') hd htold
  constructor
  · rw [call.contents_answerFrom, hcontents, ← call.contents_answerFrom]
  · rw [call.answerFrom_eq_iff hcontents, hkeys]

/-- Inputs are named as a new engine names them if no demand spells the working
    directory in another way. -/
theorem stamps_eq_anew (h : d.engine.Sound run)
    (hagree : ∀ d' ∈ run, d'.moment.tree.Agree d.moment.tree)
    (hspelling : ∀ d' ∈ run, d'.config.cwd.same d.config.cwd = true →
      d'.config.cwd = d.config.cwd) : d.stamps = d.anew.stamps := by
  cases hsettings : d.config.catalogue.settings? with
  | none =>
    have hnew : d.anew.config.catalogue.settings? = none := hsettings
    rw [stamps_of_settings?_none hsettings, stamps_of_settings?_none hnew]
  | some s =>
    have hnew : d.anew.engine.Sound [] := Engine.sound_fresh []
    obtain ⟨dir, hsame, hdir, hstamps⟩ := (stamps_spec h hagree).1 s hsettings
    obtain ⟨dir', -, hdir', hstamps'⟩ := (stamps_spec hnew (by simp)).1 s hsettings
    -- layer files are named from this directory, or as some demand spelled it
    have hcwd : dir = d.config.cwd := by
      rcases hdir with hdir | ⟨d', hd', hdir⟩
      · exact hdir
      · rw [hdir]
        exact hspelling d' hd' (hdir ▸ hsame)
    have hcwd' : dir' = d.config.cwd := by
      rcases hdir' with hdir' | ⟨d', hd', -⟩
      · exact hdir'
      · exact absurd hd' (by simp)
    rw [hstamps, hstamps', hcwd, hcwd']
    rfl

end Demand

/-- **What is remembered does not show, but for one spelling.**  Let an engine whose
    resolved files live no time work through any steps, in which files are known
    by their times of change and keys by their sections.  Then the next answer
    has the contents that a new engine's answer has.  It is that very answer
    unless the call is for a registry and the inputs of its catalogue are named
    otherwise than a new engine names them; which they are not if no call has
    spelled the same working directory in another way. -/
theorem Session.answer_eq_anew (t : FileTree) (steps : List Step) (now : Nat) (call : Call)
    (hagree : Timely ((opened t).demands (steps ++ [.call now call])))
    (htold : Told (keysOf ((opened t).demands (steps ++ [.call now call])))) :
    let s := (opened t).after steps
    let d : Demand := ⟨s.engine, ⟨s.tree, now⟩, call.config⟩
    let here := (s.engine.answer ⟨s.tree, now⟩ call).1
    let new := ((Engine.fresh .design 0).answer ⟨s.tree, now⟩ call).1
    here.contents = new.contents
      ∧ (here = new ↔ (call.tokens? = none → d.stamps = d.anew.stamps))
      ∧ ((∀ d' ∈ (opened t).demands steps,
          d'.config.cwd.same call.config.cwd = true → d'.config.cwd = call.config.cwd) →
        here = new) := by
  intro s d here new
  generalize hrun : (opened t).demands (steps ++ [.call now call]) = run at hagree htold
  rw [demands_append] at hrun
  have hsound : s.engine.Sound run := by
    refine sound_after ?_ hagree
    intro d' hd'
    rw [← hrun]
    exact List.mem_append_left _ hd'
  cases hdemands : call.demands with
  | false =>
    -- nothing is found, whatever is remembered
    have hsame : here = new := by
      simp only [here, new, Engine.answer_of_not_demands hdemands]
    have htokens : call.tokens? ≠ none := by
      intro hnone
      simp [Call.demands, hnone] at hdemands
    exact ⟨by rw [hsame], ⟨fun _ hnone => absurd hnone htokens, fun _ => hsame⟩, fun _ => hsame⟩
  | true =>
    -- the demand of the call itself is the last one of the run
    have hlast : s.demands [.call now call] = [d] := s.demands_call now hdemands
    have hd : d ∈ run := by
      rw [← hrun, hlast]
      exact List.mem_append_right _ List.mem_cons_self
    have hhere : here = call.answerFrom d.registry :=
      (Engine.answer_of_demands hdemands hsound.tokens).1
    have hnew : new = call.answerFrom d.anew.registry :=
      (Engine.answer_of_demands hdemands TokenMemo.right_empty).1
    obtain ⟨hcontents, hiff⟩ := Demand.answerFrom_anew hsound hd hagree htold call
    rw [← hhere, ← hnew] at hcontents hiff
    refine ⟨hcontents, hiff, ?_⟩
    intro hspelling
    refine hiff.mpr fun _ => Demand.stamps_eq_anew hsound (fun d' hd' => hagree d' hd' d hd) ?_
    intro d' hd' hsame
    rw [← hrun, hlast, List.mem_append, List.mem_singleton] at hd'
    rcases hd' with hd' | rfl
    · exact hspelling d' hd' hsame
    · rfl

namespace Session

/-! ## A stylesheet that is edited -/

/-- Without a catalogue the sections of a demand follow from its tree and its
    configuration, for a new engine as well. -/
theorem sections_of_mem_demands {t : FileTree} {steps : List Step} {d : Demand}
    (hagree : Timely ((opened t).demands steps)) (hd : d ∈ (opened t).demands steps)
    (hsettings : d.config.catalogue.settings? = none) :
    d.sections = Engine.keySections d.config
        (ResolutionCache.filesNow d.moment.tree d.config.stylesheets d.config.cwd) []
      ∧ d.anew.sections = d.sections := by
  obtain ⟨before, rest, rfl, hengine, -⟩ := eq_of_mem_demands hd
  have hsound : d.engine.Sound ((opened t).demands (before ++ rest)) := by
    rw [hengine]
    refine sound_after (fun d' hd' => ?_) hagree
    rw [demands_append]
    exact List.mem_append_left _ hd'
  have hfaithful := hsound.faithful fun d' hd' => hagree d' hd' d hd
  have hstamps := Demand.stamps_of_settings?_none hsettings
  have hnew : d.anew.stamps = [] := Demand.stamps_of_settings?_none hsettings
  constructor
  · rw [Demand.sections, hfaithful.files, hstamps]
  · rw [Demand.sections, Demand.sections, hfaithful.files_anew, hstamps, hnew]
    rfl

/-- The stylesheet is given another class, at a later time. -/
def edit : FileChange :=
  .write (.ofString "a.css") (Text.toBytes ".b \x7b\x7d .c \x7b\x7d".toList) 9

/-- Calls for both configurations, and the edit. -/
def opening : List Step :=
  [.call 0 (.registry .styling), .call 1 (.checkText (.listing "b") "b".toList), .change edit]

/-- After the edit the stylesheet is asked for again. -/
def edits : List Step := opening ++ [.call 2 (.checkText .styling "c".toList)]

/-- A check of three words, one of them in no registry. -/
def check : Call := .checkText .styling "b c d".toList

/-- What is asked for, and in which tree. -/
theorem mem_asked {d : Demand} (hd : d ∈ (opened .styled).demands (edits ++ [.call 3 check])) :
    (d.moment.tree = .styled ∧ (d.config = .styling ∨ d.config = .listing "b"))
      ∨ (d.moment.tree = FileTree.styled.apply edit ∧ d.config = .styling) := by
  have htrace : (opened .styled).trace (fun d => (d.moment.tree, d.config))
      (edits ++ [.call 3 check])
        = [(.styled, .styling), (.styled, .listing "b"), (FileTree.styled.apply edit, .styling),
          (FileTree.styled.apply edit, .styling)] := rfl
  have hasked := List.mem_map_of_mem (f := fun d : Demand => (d.moment.tree, d.config)) hd
  rw [← trace, htrace] at hasked
  simp only [List.mem_cons, Prod.mk.injEq, List.not_mem_nil, or_false] at hasked
  rcases hasked with ⟨htree, hconfig⟩ | ⟨htree, hconfig⟩ | h | h
  · exact Or.inl ⟨htree, Or.inl hconfig⟩
  · exact Or.inl ⟨htree, Or.inr hconfig⟩
  · exact Or.inr h
  · exact Or.inr h

theorem timely_edits : Timely ((opened .styled).demands (edits ++ [.call 3 check])) := by
  have hedit : FileTree.styled.Agree (FileTree.styled.apply edit) :=
    FileTree.agree_of_times (by decide +kernel)
  intro d hd d' hd'
  obtain ⟨h, -⟩ | ⟨h, -⟩ := mem_asked hd <;> obtain ⟨h', -⟩ | ⟨h', -⟩ := mem_asked hd' <;>
    rw [h, h']
  · exact FileTree.Agree.refl _
  · exact hedit
  · exact hedit.symm
  · exact FileTree.Agree.refl _

/-- The sections for the stylesheet before and after the edit, and those for the
    list. -/
def sectionsOfEdits : List (List Section) :=
  [Engine.keySections .styling [⟨.ofString "a.css", 7⟩] [],
    Engine.keySections .styling [⟨.ofString "a.css", 9⟩] [],
    Engine.keySections (.listing "b") [] []]

theorem sections_edits {d : Demand}
    (hd : d ∈ (opened .styled).demands (edits ++ [.call 3 check])) :
    d.sections ∈ sectionsOfEdits ∧ d.anew.sections ∈ sectionsOfEdits := by
  have hsettings : d.config.catalogue.settings? = none := by
    obtain ⟨-, h | h⟩ | ⟨-, h⟩ := mem_asked hd <;> rw [h] <;> rfl
  obtain ⟨hsections, hnew⟩ := sections_of_mem_demands timely_edits hd hsettings
  rw [hnew, and_self, hsections]
  obtain ⟨htree, h | h⟩ | ⟨htree, h⟩ := mem_asked hd <;> rw [htree, h] <;> decide +kernel

set_option maxRecDepth 10000 in
/-- The three keys are different. -/
theorem told_edits : Told (keysOf ((opened .styled).demands (edits ++ [.call 3 check]))) := by
  have hfit : ∀ xs ∈ sectionsOfEdits, Fit xs := by decide +kernel
  refine (Told.of_nodup hfit (by decide +kernel)).mono fun xs hxs => ?_
  rcases List.mem_append.mp hxs with hxs | hxs <;> obtain ⟨d, hd, rfl⟩ := List.mem_map.mp hxs
  · exact (sections_edits hd).1
  · exact (sections_edits hd).2

/-- The demand of the last check. -/
def lastDemand : Demand :=
  ⟨((opened .styled).after edits).engine, ⟨((opened .styled).after edits).tree, 3⟩, .styling⟩

/-- The registry of the last check is held under its key. -/
theorem lookup?_lastDemand :
    ∃ x, lastDemand.engine.registries.lookup? lastDemand.slot = some (lastDemand.key, x) := by
  -- it was made for the demand before
  obtain ⟨before, hbefore⟩ : ∃ before, before = (opened .styled).after opening := ⟨_, rfl⟩
  have hdemands : (Call.checkText .styling "c".toList).demands = true := rfl
  have hafter : (opened .styled).after edits
      = before.next (.call 2 (.checkText .styling "c".toList)) := by
    rw [hbefore]
    exact List.foldl_append ..
  have hlast : lastDemand = ⟨(before.next (.call 2 (.checkText .styling "c".toList))).engine,
      ⟨before.tree, 3⟩, .styling⟩ := by
    rw [lastDemand, hafter]
    rfl
  have hrun : (opened .styled).demands (edits ++ [.call 3 check])
      = (opened .styled).demands opening ++ [⟨before.engine, ⟨before.tree, 2⟩, .styling⟩]
        ++ [lastDemand] := by
    rw [demands_append, demands_call _ 3 rfl, edits, demands_append, demands_call _ 2 hdemands,
      ← hbefore]
    rfl
  have hmade := (sections_of_mem_demands (d := ⟨before.engine, ⟨before.tree, 2⟩, .styling⟩)
    timely_edits (by rw [hrun]; simp) rfl).1
  have hasked := (sections_of_mem_demands (d := lastDemand) timely_edits
    (by rw [hrun]; simp) rfl).1
  have hheld := (Demand.mk before.engine ⟨before.tree, 2⟩ .styling).lookup?_after
  have hkept : (before.next (.call 2 (.checkText .styling "c".toList))).engine.registries
      = (Demand.mk before.engine ⟨before.tree, 2⟩ .styling).after.registries :=
    Engine.registries_answer hdemands
  rw [hlast] at hasked ⊢
  rw [Demand.key, hmade] at hheld
  rw [Demand.key, hasked, hkept]
  exact ⟨_, hheld⟩

/-- After the edit and calls for two configurations, the stylesheet is checked from
    a registry that is remembered, and as a new engine would check it. -/
theorem answer_eq_anew_after_edits :
    Timely ((opened .styled).demands (edits ++ [.call 3 check]))
      ∧ Told (keysOf ((opened .styled).demands (edits ++ [.call 3 check])))
      ∧ (∃ x, lastDemand.engine.registries.lookup? lastDemand.slot = some (lastDemand.key, x))
      ∧ (((opened .styled).after edits).engine.answer ⟨((opened .styled).after edits).tree, 3⟩
          check).1
        = ((Engine.fresh .design 0).answer ⟨((opened .styled).after edits).tree, 3⟩ check).1 := by
  refine ⟨timely_edits, told_edits, lookup?_lastDemand, ?_⟩
  refine (answer_eq_anew .styled edits 3 check timely_edits told_edits).2.2 fun d hd _ => ?_
  have hrun : d ∈ (opened .styled).demands (edits ++ [.call 3 check]) := by
    rw [demands_append]
    exact List.mem_append_left _ hd
  obtain ⟨-, h | h⟩ | ⟨-, h⟩ := mem_asked hrun <;> rw [h] <;> rfl

/-! ## A directory spelled in two ways -/

/-- A directory with a design and the layer file that it names. -/
def project : FileTree :=
  [FileChange.makeDirectory (.ofString "p"),
    .write (.ofString "p/tailwind.config.json")
      (Text.toBytes "\x7b\"layers\": [\"a.css\"]\x7d".toList) 7,
    .write (.ofString "p/a.css") (Text.toBytes "@layer c \x7b .b \x7b\x7d \x7d".toList) 8].foldl
    FileTree.apply (.ofWorkingDirectory [] 5)

/-- The demand for the directory `p/.` of an engine that has answered one for `p`. -/
def respelled : Demand where
  engine := (Demand.mk (.fresh .design 0) ⟨project, 0⟩ (.layered "p")).after
  moment := ⟨project, 0⟩
  config := .layered "p/."

theorem stamps_respelled : respelled.stamps
    = [⟨Text.bytes "p/./tailwind.config.json".toList, 7⟩,
      ⟨Text.bytes "p/a.css".toList, 8⟩] := by
  have hgenerator : respelled.engine.generator = .design := by
    rw [respelled, Demand.after_generator]
    rfl
  have hlayers : respelled.engine.layers
      = some ⟨.ofString "p/tailwind.config.json", 7, .ofString "p", [.ofString "p/a.css"]⟩ := by
    rw [respelled, Demand.after_layers]
    decide +kernel
  rw [Demand.stamps, Engine.catalogueInputs, hgenerator, hlayers]
  decide +kernel

theorem stamps_anew_respelled : respelled.anew.stamps
    = [⟨Text.bytes "p/./tailwind.config.json".toList, 7⟩,
      ⟨Text.bytes "p/./a.css".toList, 8⟩] := by
  decide +kernel

set_option maxRecDepth 10000 in
/-- The layer file is named as it was for `p`, and so the key is not the one that
    a new engine gives. -/
theorem key_respelled_ne : respelled.key ≠ respelled.anew.key := by
  rw [Demand.key, Demand.key, Demand.sections, Demand.sections, stamps_respelled,
    stamps_anew_respelled]
  decide +kernel

theorem registry_respelled_ne_anew : respelled.registry ≠ respelled.anew.registry := by
  intro hregistry
  have hkeyed : respelled.engine.Keyed := by
    simp only [respelled]
    exact Demand.keyed_after (Engine.keyed_fresh _ _ _)
  have hkeyed' : respelled.anew.engine.Keyed := Engine.keyed_fresh _ _ _
  have hkey : respelled.registry.key? = respelled.anew.registry.key? := by rw [hregistry]
  rw [Demand.key?_registry hkeyed, Demand.key?_registry hkeyed'] at hkey
  exact key_respelled_ne (Option.some.inj hkey)

end Session

end ClassLint
