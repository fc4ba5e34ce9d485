/-
  ClassLint.Proofs.Engine.Steady

  Engines that work for one configuration on files that do not change.  What is
  remembered was right when it was remembered and has stayed so, at whatever
  times it is used again: the files, the layer files and the registry are those
  that a new engine finds.  So every check finds what a new engine finds.
-/

import ClassLint.Proofs.Catalogue.Inputs
import ClassLint.Proofs.Engine.Keys

namespace ClassLint

/-- The demand of a new engine on a tree. -/
def Demand.first (t : FileTree) (c : Config) : Demand := ⟨.standard, ⟨t, 0⟩, c⟩

/-! ## Resolved files -/

namespace ResolutionCache

/-- What is remembered for the patterns are the files that they stand for in the tree. -/
def Current (cache : ResolutionCache) (t : FileTree) (patterns : List Text) (cwd : Path) : Prop :=
  ∀ entry ∈ cache.entries, isFor patterns cwd entry = true →
    entry.files.value = filesNow t patterns cwd

theorem Current.resolve {cache : ResolutionCache} {t : FileTree} {patterns : List Text}
    {cwd : Path} (h : cache.Current t patterns cwd) (now : Nat) :
    (cache.resolve now t patterns cwd).1.value = filesNow t patterns cwd
      ∧ (cache.resolve now t patterns cwd).2.Current t patterns cwd := by
  unfold ResolutionCache.resolve
  cases hempty : patterns.isEmpty with
  | true =>
    rw [List.isEmpty_iff] at hempty
    subst hempty
    exact ⟨rfl, h⟩
  | false =>
    simp only [Bool.false_eq_true, if_false]
    cases hlookup : cache.lookup? now patterns cwd with
    | some files =>
      refine ⟨?_, h⟩
      -- the entry that was found is still young enough
      unfold lookup? at hlookup
      split at hlookup
      · next entry hfind =>
        split at hlookup
        · obtain rfl := Option.some.inj hlookup
          exact h entry (List.mem_of_find?_eq_some hfind) (List.find?_some hfind)
        · exact absurd hlookup (by simp)
      · exact absurd hlookup (by simp)
    | none =>
      refine ⟨rfl, ?_⟩
      intro entry hentry hfor
      rcases List.mem_cons.mp hentry with rfl | hentry
      · rfl
      · exact h entry (List.mem_filter.mp hentry).1 hfor

end ResolutionCache

/-! ## The invariant -/

/-- Everything that the engine remembers is what a new engine finds in the tree
    for the configuration. -/
structure Engine.Steady (e : Engine) (t : FileTree) (c : Config) : Prop where
  generator : e.generator = .design
  extractor : e.extractor = .selectors
  tokens : e.tokens.Right
  files : e.files.Current t c.stylesheets c.cwd
  layers : ∀ memo, e.layers = some memo → memo.ReadIn t ∧ memo.cwd = c.cwd
  registries : ∀ entry ∈ e.registries.entries, entry.2.2.value = (Demand.first t c).built

theorem Engine.steady_standard (t : FileTree) (c : Config) : standard.Steady t c where
  generator := rfl
  extractor := rfl
  tokens := TokenMemo.right_empty
  files entry hentry := absurd hentry (by simp [standard, fresh, ResolutionCache.empty])
  layers memo hmemo := absurd hmemo (by simp [standard, fresh])
  registries entry hentry := absurd hentry (by simp [standard, fresh, SlotCache.empty])

namespace Demand

variable {d : Demand}

theorem files_of_steady (h : d.engine.Steady d.moment.tree d.config) :
    d.files = (first d.moment.tree d.config).files := by
  have hnew := (Engine.steady_standard d.moment.tree d.config).files
  rw [files, (h.files.resolve d.moment.now).1]
  exact ((hnew.resolve 0).1).symm

/-- The inputs of the catalogue are named from the directory as the configuration
    spells it, whether their list is remembered or not. -/
theorem inputs_of_steady (h : d.engine.Steady d.moment.tree d.config) :
    (∀ s, d.config.catalogue.settings? = some s →
        (d.engine.catalogueInputs d.moment.tree d.config).1
          = s.inputsFrom d.moment.tree d.config.cwd d.config.cwd)
      ∧ ∀ memo, d.after.layers = some memo →
        memo.ReadIn d.moment.tree ∧ memo.cwd = d.config.cwd := by
  rw [after_layers]
  unfold Engine.catalogueInputs
  cases hsettings : d.config.catalogue.settings? with
  | none => exact ⟨fun s hs => absurd hs (by simp), h.layers⟩
  | some s =>
    have hmemo : ∀ m, d.engine.layers = some m →
        ∃ w, m.ReadIn w ∧ w.Agree d.moment.tree := by
      intro m hm
      exact ⟨d.moment.tree, (h.layers m hm).1, FileTree.Agree.refl _⟩
    obtain ⟨⟨dir, -, hdir, hinputs⟩, hnext⟩ := Generator.inputs_spec hmemo s d.config.cwd
    have hcwd : dir = d.config.cwd := by
      rcases hdir with hdir | ⟨m, hm, hdir⟩
      · exact hdir
      · exact hdir.trans (h.layers m hm).2
    rw [h.generator]
    constructor
    · intro s' hs'
      obtain rfl : s = s' := Option.some.inj hs'
      rw [← hcwd] at hinputs ⊢
      exact hinputs
    · intro memo hafter
      rcases hnext with hsame | ⟨m, hm, hread, hspelled⟩
      · exact h.layers memo (hsame ▸ hafter)
      · obtain rfl : m = memo := Option.some.inj (hm.symm.trans hafter)
        exact ⟨hread, hspelled⟩

theorem stamps_of_steady (h : d.engine.Steady d.moment.tree d.config) :
    d.stamps = (first d.moment.tree d.config).stamps := by
  have hnew : (first d.moment.tree d.config).engine.Steady
      (first d.moment.tree d.config).moment.tree (first d.moment.tree d.config).config :=
    Engine.steady_standard d.moment.tree d.config
  cases hsettings : d.config.catalogue.settings? with
  | none =>
    have hsettings' : (first d.moment.tree d.config).config.catalogue.settings? = none := hsettings
    exact (stamps_of_settings?_none hsettings).trans (stamps_of_settings?_none hsettings').symm
  | some s =>
    unfold stamps
    rw [(inputs_of_steady h).1 s hsettings, (inputs_of_steady hnew).1 s hsettings]
    rfl

/-- A registry that is made on the spot is the one that a new engine makes. -/
theorem built_of_steady (h : d.engine.Steady d.moment.tree d.config) :
    d.built = (first d.moment.tree d.config).built := by
  have hkey : d.key = (first d.moment.tree d.config).key := by
    unfold key sections
    rw [files_of_steady h, stamps_of_steady h]
    rfl
  unfold built
  rw [hkey, files_of_steady h, h.generator, h.extractor]
  rfl

theorem registry_of_steady (h : d.engine.Steady d.moment.tree d.config) :
    d.registry = (first d.moment.tree d.config).built := by
  rcases d.registry_cases.1 with ⟨entry, hentry, -, hvalue⟩ | hbuilt
  · rw [← hvalue, h.registries entry hentry]
  · rw [hbuilt, built_of_steady h]

/-- A demand leaves the engine steady. -/
theorem steady_after (h : d.engine.Steady d.moment.tree d.config) :
    d.after.Steady d.moment.tree d.config where
  generator := h.generator
  extractor := h.extractor
  tokens := h.tokens
  files := (h.files.resolve d.moment.now).2
  layers := (inputs_of_steady h).2
  registries entry hentry := by
    rcases d.registry_cases.2 entry hentry with hold | ⟨-, hvalue, -⟩
    · exact h.registries entry hold
    · rw [hvalue, registry_of_steady h]

end Demand

/-! ## Calls -/

/-- A call without tokens to check has the answer that any registry gives. -/
theorem Call.answerFrom_of_not_demands {call : Call} (h : call.demands = false) (r : Registry) :
    call.answerFrom r = .findings [] := by
  cases htokens : call.tokens? with
  | none => exact absurd h (by simp [Call.demands, htokens])
  | some tokens =>
    have hempty : tokens.isEmpty = true := by simpa [Call.demands, htokens] using h
    have hnone : tokens.toList = [] := by
      rw [OrderedSet.toList, Array.toList_eq_nil_iff]
      exact Array.isEmpty_iff.mp hempty
    unfold Call.answerFrom
    rw [htokens]
    simp only [hnone]
    rfl

namespace Engine

variable {e : Engine} {m : Moment} {c : Config}

/-- A steady engine answers from the registry that a new engine makes, and stays steady. -/
theorem Steady.answer (h : e.Steady m.tree c) (call : Call) (hcall : call.config = c) :
    (e.answer m call).1 = call.answerFrom (Demand.first m.tree c).built
      ∧ (e.answer m call).2.Steady m.tree c := by
  subst hcall
  cases hdemands : call.demands with
  | false =>
    rw [answer_of_not_demands hdemands, Call.answerFrom_of_not_demands hdemands]
    exact ⟨rfl, h⟩
  | true =>
    obtain ⟨hanswer, memo, hmemo, hafter⟩ := answer_of_demands (m := m) hdemands h.tokens
    have hd : (Demand.mk e m call.config).after.Steady m.tree call.config :=
      Demand.steady_after (d := ⟨e, m, call.config⟩) h
    have hregistry := Demand.registry_of_steady (d := ⟨e, m, call.config⟩) h
    refine ⟨by rw [hanswer, hregistry], ?_⟩
    rw [hafter]
    exact ⟨hd.generator, hd.extractor, hmemo, hd.files, hd.layers, hd.registries⟩

end Engine

/-- Calls for one configuration, at whatever times, have the answers that each of
    them has alone. -/
theorem Session.answers_of_steady {s : Session} {c : Config} (h : s.engine.Steady s.tree c)
    (calls : List (Nat × Call)) (hcalls : ∀ p ∈ calls, p.2.config = c) :
    s.answers (calls.map fun p => .call p.1 p.2)
      = calls.map fun p => (Engine.standard.answer ⟨s.tree, 0⟩ p.2).1 := by
  induction calls generalizing s with
  | nil => rfl
  | cons p rest ih =>
    have hp : p.2.config = c := hcalls p List.mem_cons_self
    have hhere := Engine.Steady.answer (m := ⟨s.tree, p.1⟩) h p.2 hp
    have hnew := Engine.Steady.answer (m := ⟨s.tree, 0⟩) (Engine.steady_standard s.tree c) p.2 hp
    rw [List.map_cons, List.map_cons, answers, hhere.1, hnew.1]
    have hrest := ih (s := s.next (.call p.1 p.2)) hhere.2
      fun q hq => hcalls q (List.mem_cons_of_mem p hq)
    rw [hrest]
    rfl

end ClassLint
