/-
  ClassLint.Proofs.Engine.Reset

  What a reset forgets.  Afterwards an engine answers as a new one does, whatever
  it remembered before, except that it still knows the layer files of the design
  that was read last.  So its answers are those of a new engine that was given
  these layer files; they are those of a new engine without them as long as both
  name the same inputs of a catalogue.

  Instances have numbers that go on after a reset.  Numbers do not show in
  answers, so engines are compared here up to numbers.
-/

import ClassLint.Proofs.Engine.Keys
import ClassLint.Proofs.Engine.Unnumbered

namespace ClassLint

open Fingerprint (Fit Section Told)

/-! ## Engines that remember the same -/

/-- Two engines remember the same resolutions and registries, up to numbers, and
    their readings are right.  Layer files are left out. -/
structure Engine.Alike (e f : Engine) : Prop where
  generator : e.generator = f.generator
  extractor : e.extractor = f.extractor
  files : e.files.unnumbered = f.files.unnumbered
  registries : e.registries.unnumbered = f.registries.unnumbered
  right : e.tokens.Right
  right' : f.tokens.Right

namespace Engine.Alike

variable {e f : Engine}

theorem clear (h : e.Alike f) : e.clear.Alike f.clear where
  generator := h.generator
  extractor := h.extractor
  files := by
    have hlifetime : e.files.unnumbered.lifetime = f.files.unnumbered.lifetime := by rw [h.files]
    have hlifetime' : e.files.lifetime = f.files.lifetime := hlifetime
    simp [Engine.clear, ResolutionCache.clear, ResolutionCache.unnumbered, hlifetime']
  registries := rfl
  right := TokenMemo.right_clear e.tokens
  right' := TokenMemo.right_clear f.tokens

theorem setTokens (h : e.Alike f) {memo memo' : TokenMemo} (hmemo : memo.Right)
    (hmemo' : memo'.Right) : Alike { e with tokens := memo } { f with tokens := memo' } where
  generator := h.generator
  extractor := h.extractor
  files := h.files
  registries := h.registries
  right := hmemo
  right' := hmemo'

variable {m : Moment} {c : Config}

/-- Such engines find the same files. -/
theorem files_eq (h : e.Alike f) :
    (Demand.mk e m c).files = (Demand.mk f m c).files
      ∧ (Demand.mk e m c).after.files.unnumbered = (Demand.mk f m c).after.files.unnumbered := by
  obtain ⟨hvalue, hnext⟩ :=
    e.files.resolve_unnumbered m.now m.tree c.stylesheets c.cwd
  obtain ⟨hvalue', hnext'⟩ :=
    f.files.resolve_unnumbered m.now m.tree c.stylesheets c.cwd
  rw [h.files] at hvalue hnext
  rw [Demand.after_files, Demand.after_files]
  exact ⟨hvalue.symm.trans hvalue', hnext.symm.trans hnext'⟩

/-- Where such engines name the same inputs they give out the same registry, and
    still remember the same afterwards. -/
theorem demand (h : e.Alike f) (hstamps : (Demand.mk e m c).stamps = (Demand.mk f m c).stamps) :
    (Demand.mk e m c).registry = (Demand.mk f m c).registry
      ∧ (Demand.mk e m c).after.Alike (Demand.mk f m c).after := by
  obtain ⟨hfiles, hnext⟩ := h.files_eq (m := m) (c := c)
  have hkey : (Demand.mk e m c).key = (Demand.mk f m c).key := by
    simp only [Demand.key, Demand.sections, hfiles, hstamps]
  have hbuilt : (Demand.mk e m c).built = (Demand.mk f m c).built := by
    simp only [Demand.built, hfiles, hkey, h.generator, h.extractor]
  have hslotted : (Demand.mk e m c).slotted.1.value = (Demand.mk f m c).slotted.1.value
      ∧ (Demand.mk e m c).slotted.2.unnumbered = (Demand.mk f m c).slotted.2.unnumbered := by
    simp only [Demand.slotted, hkey]
    exact SlotCache.get_congr h.registries _ _ hbuilt
  refine ⟨?_, h.generator, h.extractor, hnext, ?_, h.right, h.right'⟩
  · rw [Demand.registry_eq, Demand.registry_eq, hslotted.1]
  · rw [Demand.after_registries, Demand.after_registries, hslotted.2]

/-- Such engines with the same layer files name the same inputs, and the same
    layer files are remembered afterwards. -/
theorem stamps_eq (h : e.Alike f) (hlayers : e.layers = f.layers) :
    (Demand.mk e m c).stamps = (Demand.mk f m c).stamps
      ∧ (Demand.mk e m c).after.layers = (Demand.mk f m c).after.layers := by
  have hinputs : e.catalogueInputs m.tree c = f.catalogueInputs m.tree c := by
    unfold Engine.catalogueInputs
    rw [h.generator, hlayers]
  simp only [Demand.stamps, Demand.after_layers, hinputs, and_self]

end Engine.Alike

/-! ## Sessions side by side -/

/-- Two sessions work on the same files with engines that are alike. -/
structure Session.Alike (s s' : Session) : Prop where
  engine : s.engine.Alike s'.engine
  tree : s.tree = s'.tree

namespace Session

/-- A step of two sessions at once: they stay alike, and answer alike, if they
    name the same inputs. -/
theorem Alike.next {s s' : Session} (h : s.Alike s') (step : Step)
    (hstamps : s.trace Demand.stamps [step] = s'.trace Demand.stamps [step]) :
    (s.next step).Alike (s'.next step) ∧ s.answers [step] = s'.answers [step]
      ∧ s.trace Demand.registry [step] = s'.trace Demand.registry [step] := by
  obtain ⟨e, t⟩ := s
  obtain ⟨f, t'⟩ := s'
  obtain ⟨hengine, htree⟩ := h
  obtain rfl : t = t' := htree
  cases step with
  | change change => exact ⟨⟨hengine, rfl⟩, rfl, rfl⟩
  | clear => exact ⟨⟨hengine.clear, rfl⟩, rfl, rfl⟩
  | call now call =>
    cases hdemands : call.demands with
    | false =>
      rw [next_of_not_demands _ now hdemands, next_of_not_demands _ now hdemands,
        trace_of_not_demands _ _ now hdemands, trace_of_not_demands _ _ now hdemands]
      refine ⟨⟨hengine, rfl⟩, ?_, rfl⟩
      simp only [answers, Engine.answer_of_not_demands hdemands]
    | true =>
      rw [trace_of_demands _ _ now hdemands, trace_of_demands _ _ now hdemands] at hstamps ⊢
      obtain ⟨hregistry, hafter⟩ := hengine.demand (List.singleton_inj.mp hstamps)
      obtain ⟨memo, hmemo, hnext⟩ := next_of_demands ⟨e, t⟩ now hdemands hengine.right
      obtain ⟨memo', hmemo', hnext'⟩ := next_of_demands ⟨f, t⟩ now hdemands hengine.right'
      have hanswer := (Engine.answer_of_demands (m := ⟨t, now⟩) hdemands hengine.right).1
      have hanswer' := (Engine.answer_of_demands (m := ⟨t, now⟩) hdemands hengine.right').1
      rw [hnext, hnext', hregistry]
      refine ⟨⟨hafter.setTokens hmemo hmemo', rfl⟩, ?_, rfl⟩
      simp only [answers, hanswer, hanswer', hregistry]

/-- Sessions that are alike give the same answers from the same registries if they
    name the same inputs all along. -/
theorem Alike.run {s s' : Session} (h : s.Alike s') (steps : List Step)
    (hstamps : s.trace Demand.stamps steps = s'.trace Demand.stamps steps) :
    s.answers steps = s'.answers steps
      ∧ s.trace Demand.registry steps = s'.trace Demand.registry steps := by
  induction steps generalizing s s' with
  | nil => exact ⟨rfl, rfl⟩
  | cons step rest ih =>
    obtain ⟨hstep, hrest⟩ := trace_cons_inj.mp hstamps
    obtain ⟨hnext, hanswers, hregistries⟩ := h.next step hstep
    obtain ⟨hanswers', hregistries'⟩ := ih hnext hrest
    refine ⟨?_, trace_cons_inj.mpr ⟨hregistries, hregistries'⟩⟩
    rw [answers_cons s, answers_cons s', hanswers, hanswers']

/-! ## The same layer files -/

/-- Sessions that are alike and remember the same layer files name the same inputs
    in a step, and remember the same layer files after it. -/
theorem Alike.layers_next {s s' : Session} (h : s.Alike s')
    (hlayers : s.engine.layers = s'.engine.layers) (step : Step) :
    s.trace Demand.stamps [step] = s'.trace Demand.stamps [step]
      ∧ (s.next step).engine.layers = (s'.next step).engine.layers := by
  obtain ⟨e, t⟩ := s
  obtain ⟨f, t'⟩ := s'
  obtain ⟨hengine, htree⟩ := h
  obtain rfl : t = t' := htree
  cases step with
  | change | clear => exact ⟨rfl, hlayers⟩
  | call now call =>
    cases hdemands : call.demands with
    | false =>
      rw [next_of_not_demands _ now hdemands, next_of_not_demands _ now hdemands,
        trace_of_not_demands _ _ now hdemands, trace_of_not_demands _ _ now hdemands]
      exact ⟨rfl, hlayers⟩
    | true =>
      obtain ⟨hsame, hafter⟩ :=
        hengine.stamps_eq (m := ⟨t, now⟩) (c := call.config) hlayers
      obtain ⟨memo, -, hnext⟩ := next_of_demands ⟨e, t⟩ now hdemands hengine.right
      obtain ⟨memo', -, hnext'⟩ := next_of_demands ⟨f, t⟩ now hdemands hengine.right'
      rw [trace_of_demands _ _ now hdemands, trace_of_demands _ _ now hdemands, hnext, hnext',
        hsame]
      exact ⟨rfl, hafter⟩

theorem Alike.layers_run {s s' : Session} (h : s.Alike s')
    (hlayers : s.engine.layers = s'.engine.layers) (steps : List Step) :
    s.trace Demand.stamps steps = s'.trace Demand.stamps steps := by
  induction steps generalizing s s' with
  | nil => rfl
  | cons step rest ih =>
    obtain ⟨hstamps, hnext⟩ := h.layers_next hlayers step
    have halike := (h.next step hstamps).1
    exact trace_cons_inj.mpr ⟨hstamps, ih halike hnext⟩

/-! ## The same registries -/

/-- Engines that give out the same registry in a step name the same inputs in it,
    for the registry bears its key. -/
theorem stamps_step_of_registry_step {s s' : Session} (hkeyed : s.engine.Keyed)
    (hkeyed' : s'.engine.Keyed) {step : Step}
    (htold : Told (s.trace Demand.sections [step] ++ s'.trace Demand.sections [step]))
    (h : s.trace Demand.registry [step] = s'.trace Demand.registry [step]) :
    s.trace Demand.stamps [step] = s'.trace Demand.stamps [step] := by
  cases step with
  | change | clear => rfl
  | call now call =>
    cases hdemands : call.demands with
    | false =>
      rw [trace_of_not_demands _ _ now hdemands, trace_of_not_demands _ _ now hdemands]
    | true =>
      -- equal registries bear equal keys, and keys tell the inputs
      rw [trace_of_demands _ _ now hdemands, trace_of_demands _ _ now hdemands] at h htold ⊢
      have hkey := congrArg Registry.key? (List.singleton_inj.mp h)
      rw [Demand.key?_registry hkeyed, Demand.key?_registry hkeyed', Option.some.injEq] at hkey
      have hsections := htold.sections_eq (by simp) (by simp) hkey
      rw [(Demand.eq_of_sections_eq hsections).2.2.2.2.2.1]

theorem Alike.stamps_of_registries {s s' : Session} (h : s.Alike s') (hkeyed : s.engine.Keyed)
    (hkeyed' : s'.engine.Keyed) (steps : List Step)
    (htold : Told (s.trace Demand.sections steps ++ s'.trace Demand.sections steps))
    (hregistries : s.trace Demand.registry steps = s'.trace Demand.registry steps) :
    s.trace Demand.stamps steps = s'.trace Demand.stamps steps := by
  induction steps generalizing s s' with
  | nil => rfl
  | cons step rest ih =>
    rw [trace_cons s, trace_cons s'] at htold
    obtain ⟨hstep, hrest⟩ := trace_cons_inj.mp hregistries
    -- only with the same inputs in this step are the sessions still alike after it
    have hstamps : s.trace Demand.stamps [step] = s'.trace Demand.stamps [step] := by
      refine stamps_step_of_registry_step hkeyed hkeyed' (htold.mono fun xs hxs => ?_) hstep
      simp only [List.mem_append] at hxs ⊢
      exact hxs.imp Or.inl Or.inl
    have htold' : Told ((s.next step).trace Demand.sections rest
        ++ (s'.next step).trace Demand.sections rest) := by
      refine htold.mono fun xs hxs => ?_
      simp only [List.mem_append] at hxs ⊢
      exact hxs.imp Or.inr Or.inr
    have hnext := (h.next step hstamps).1
    have hkeyedNext : (s.next step).engine.Keyed := (keyed_after hkeyed h.engine.right [step]).1
    have hkeyedNext' : (s'.next step).engine.Keyed :=
      (keyed_after hkeyed' h.engine.right' [step]).1
    exact trace_cons_inj.mpr ⟨hstamps, ih hnext hkeyedNext hkeyedNext' htold' hrest⟩

end Session

/-! ## Resets -/

/-- A new engine of the same kind, that was given the layer files of the design
    that was read last. -/
def Engine.renewed (e : Engine) (layers : Option LayerMemo) : Engine :=
  { Engine.fresh e.generator e.files.lifetime e.extractor with layers := layers }

theorem Engine.alike_clear (e : Engine) (layers : Option LayerMemo) :
    e.clear.Alike (e.renewed layers) where
  generator := rfl
  extractor := rfl
  files := rfl
  registries := rfl
  right := TokenMemo.right_clear e.tokens
  right' := TokenMemo.right_empty

/-- **A reset forgets all but the layer files.**  Whatever an engine remembers, after
    a reset it answers any further calls, while files change in any way, as a new
    engine does that was given its layer files.  It answers as an altogether new
    one does if it has no layer files, or as long as both name the same inputs of
    catalogues; and where digests tell sections, only then do both work with the
    same registries. -/
theorem Session.answers_clear (e : Engine) (t : FileTree) (steps : List Session.Step) :
    let cleared : Session := ⟨e.clear, t⟩
    let new : Session := ⟨.fresh e.generator e.files.lifetime e.extractor, t⟩
    cleared.answers steps = (Session.mk (e.renewed e.layers) t).answers steps
      ∧ (e.layers = none → cleared.answers steps = new.answers steps)
      ∧ (cleared.trace Demand.stamps steps = new.trace Demand.stamps steps →
        cleared.answers steps = new.answers steps)
      ∧ (Told (cleared.trace Demand.sections steps ++ new.trace Demand.sections steps) →
        (cleared.trace Demand.registry steps = new.trace Demand.registry steps
          ↔ cleared.trace Demand.stamps steps = new.trace Demand.stamps steps)) := by
  intro cleared new
  have hnew : cleared.Alike new := ⟨e.alike_clear none, rfl⟩
  have hknowing : cleared.Alike ⟨e.renewed e.layers, t⟩ := ⟨e.alike_clear e.layers, rfl⟩
  refine ⟨?_, ?_, ?_, ?_⟩
  · exact (hknowing.run steps (hknowing.layers_run rfl steps)).1
  · intro hlayers
    exact (hnew.run steps (hnew.layers_run hlayers steps)).1
  · intro hstamps
    exact (hnew.run steps hstamps).1
  · intro htold
    constructor
    · exact hnew.stamps_of_registries e.keyed_clear (Engine.keyed_fresh _ _ _) steps htold
    · intro hstamps
      exact (hnew.run steps hstamps).2

/-! ## A design rewritten at a later time -/

namespace Session

/-- A directory with a stylesheet and a design that names another one. -/
def designed : FileTree :=
  [FileChange.write (.ofString "tailwind.config.json")
      (Text.toBytes "\x7b\"layers\": [\"a.css\"]\x7d".toList) 7,
    .write (.ofString "b.css") (Text.toBytes "@layer c \x7b .b \x7b\x7d \x7d".toList) 8].foldl
    FileTree.apply (.ofWorkingDirectory [] 5)

/-- The design names another stylesheet, at a later time. -/
def redesign : FileChange :=
  .write (.ofString "tailwind.config.json")
    (Text.toBytes "\x7b\"layers\": [\"b.css\"]\x7d".toList) 9

/-- The design is changed, and its registry is asked for. -/
def redesigning : List Step := [.change redesign, .call 3 (.registry (.layered "."))]

theorem trace_redesigning {α : Type} (e : Engine) (f : Demand → α) :
    (Session.mk e designed).trace f redesigning
      = [f ⟨e, ⟨designed.apply redesign, 3⟩, .layered "."⟩] := by
  rw [redesigning, trace_cons, trace_of_demands _ f 3 rfl]
  rfl

theorem layers_clear (e : Engine) : e.clear.layers = e.layers := rfl

theorem generator_clear (e : Engine) : e.clear.generator = e.generator := rfl

/-- The inputs of the catalogue after the change. -/
def newStamps : List FileStamp :=
  [⟨Text.bytes "./tailwind.config.json".toList, 9⟩, ⟨Text.bytes "./b.css".toList, 8⟩]

/-- The memo of the design as it was. -/
def oldLayers : LayerMemo :=
  ⟨.ofString "./tailwind.config.json", 7, .ofString ".", [.ofString "./a.css"]⟩

/-- An engine that was asked for the registry of the design has its layer files,
    after a reset too. -/
theorem clear_of_designed {e : Engine}
    (he : e = (Demand.mk (.fresh .design 1000) ⟨designed, 0⟩ (.layered ".")).after) :
    e.clear.generator = .design ∧ e.clear.layers = some oldLayers := by
  constructor
  · rw [generator_clear, he, Demand.after_generator]
    rfl
  · rw [layers_clear, he, Demand.after_layers]
    decide +kernel

/-- The design has another time than the remembered one, and is read again. -/
theorem stamps_redesigning {e : Engine} (hgenerator : e.generator = .design)
    (hlayers : e.layers = none ∨ e.layers = some oldLayers) :
    (Demand.mk e ⟨designed.apply redesign, 3⟩ (.layered ".")).stamps = newStamps := by
  rw [Demand.stamps, Engine.catalogueInputs, hgenerator]
  dsimp only
  rcases hlayers with h | h <;> rw [h] <;> decide +kernel

theorem sections_redesigning {e : Engine} (hgenerator : e.generator = .design)
    (hlayers : e.layers = none ∨ e.layers = some oldLayers) :
    (Demand.mk e ⟨designed.apply redesign, 3⟩ (.layered ".")).sections
      = Engine.keySections (.layered ".") [] newStamps := by
  rw [Demand.sections, stamps_redesigning hgenerator hlayers]
  rfl

/-- An engine of some kind stays of that kind after a demand without stylesheets. -/
theorem fresh_after {e : Engine} {generator : Generator} {lifetime : Nat} {m : Moment}
    {c : Config} (he : e = (Demand.mk (.fresh generator lifetime) m c).after)
    (h : c.stylesheets = []) :
    Engine.fresh e.generator e.files.lifetime e.extractor = .fresh generator lifetime := by
  have hlifetime : e.files.lifetime = lifetime := by
    rw [he, Demand.after_files, h]
    rfl
  rw [hlifetime, he, Demand.after_generator, Demand.after_extractor]
  rfl

/-- An engine that remembers layer files of the design finds it changed after the
    reset, and so do engines that never knew it. -/
theorem answers_clear_redesigning :
    let knowing := (Demand.mk (.fresh .design 1000) ⟨designed, 0⟩ (.layered ".")).after
    let other := (Demand.mk (.fresh .design 1000) ⟨designed, 0⟩ (.listing "b")).after
    let new : Session := ⟨.fresh .design 1000, designed⟩
    knowing.layers.isSome = true ∧ other.layers = none
      ∧ (Session.mk knowing.clear designed).trace Demand.stamps redesigning
        = new.trace Demand.stamps redesigning
      ∧ (Session.mk knowing.clear designed).answers redesigning = new.answers redesigning
      ∧ (Session.mk knowing.clear designed).trace Demand.registry redesigning
        = new.trace Demand.registry redesigning
      ∧ (Session.mk other.clear designed).answers redesigning = new.answers redesigning := by
  intro knowing other new
  have hknown : knowing = (Demand.mk (.fresh .design 1000) ⟨designed, 0⟩ (.layered ".")).after :=
    rfl
  have hother : other = (Demand.mk (.fresh .design 1000) ⟨designed, 0⟩ (.listing "b")).after :=
    rfl
  clear_value knowing other
  obtain ⟨hgenerator, hlayers⟩ := clear_of_designed hknown
  have hnone : other.layers = none := by
    rw [hother, Demand.after_layers]
    rfl
  have hstamps : (Session.mk knowing.clear designed).trace Demand.stamps redesigning
      = new.trace Demand.stamps redesigning := by
    rw [trace_redesigning, trace_redesigning, stamps_redesigning hgenerator (Or.inr hlayers),
      stamps_redesigning rfl (Or.inl rfl)]
  have htold : Told ((Session.mk knowing.clear designed).trace Demand.sections redesigning
      ++ new.trace Demand.sections redesigning) := by
    rw [trace_redesigning, trace_redesigning, sections_redesigning hgenerator (Or.inr hlayers),
      sections_redesigning rfl (Or.inl rfl)]
    have hfit : Fit (Engine.keySections (.layered ".") [] newStamps) := by decide +kernel
    exact Told.of_forall_eq hfit (by simp)
  have hcleared := answers_clear knowing designed redesigning
  have hcleared' := answers_clear other designed redesigning
  rw [fresh_after hknown rfl] at hcleared
  rw [fresh_after hother rfl] at hcleared'
  refine ⟨?_, hnone, hstamps, hcleared.2.2.1 hstamps, (hcleared.2.2.2 htold).mpr hstamps,
    hcleared'.2.1 hnone⟩
  rw [← layers_clear, hlayers]
  rfl

end Session

/-! ## A design rewritten at the same time -/

namespace Session

/-- The design names the stylesheet now, and has the time of change that it had. -/
def redesigned : FileTree :=
  designed.apply (.write (.ofString "tailwind.config.json")
    (Text.toBytes "\x7b\"layers\": [\"b.css\"]\x7d".toList) 7)

/-- A demand of an engine that knew the old design and was reset under the new one. -/
def reset : Demand where
  engine := (Demand.mk (.fresh .design 1000) ⟨designed, 0⟩ (.layered ".")).after.clear
  moment := ⟨redesigned, 0⟩
  config := .layered "."

/-- The same demand of a new engine. -/
def started : Demand := { reset with engine := .fresh .design 1000 }

theorem stamps_reset : reset.stamps = [⟨Text.bytes "./tailwind.config.json".toList, 7⟩] := by
  obtain ⟨hgenerator, hlayers⟩ :
      reset.engine.generator = .design ∧ reset.engine.layers = some oldLayers := by
    unfold reset
    exact clear_of_designed rfl
  rw [Demand.stamps, Engine.catalogueInputs, hgenerator, hlayers]
  decide +kernel

theorem stamps_started : started.stamps
    = [⟨Text.bytes "./tailwind.config.json".toList, 7⟩, ⟨Text.bytes "./b.css".toList, 8⟩] := by
  decide +kernel

set_option maxRecDepth 10000 in
/-- The stylesheet is missing from the key. -/
theorem key_reset_ne : reset.key ≠ started.key := by
  rw [Demand.key, Demand.key, Demand.sections, Demand.sections, stamps_reset, stamps_started]
  decide +kernel

theorem registry_reset_ne_started : reset.registry ≠ started.registry := by
  intro hregistry
  have hkeyed : reset.engine.Keyed := Engine.keyed_clear _
  have hkeyed' : started.engine.Keyed := Engine.keyed_fresh _ _ _
  have hkey : reset.registry.key? = started.registry.key? := by rw [hregistry]
  rw [Demand.key?_registry hkeyed, Demand.key?_registry hkeyed'] at hkey
  exact key_reset_ne (Option.some.inj hkey)

end Session

end ClassLint
