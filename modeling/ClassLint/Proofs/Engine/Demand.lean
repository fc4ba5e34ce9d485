/-
  ClassLint.Proofs.Engine.Demand

  Engines that are asked for registries.  A demand is an engine, a moment and a
  configuration; it determines the files that are found, the inputs of the
  catalogue, the sections of the key and the registry.  The registry is either
  made on the spot or one that some slot holds under the very same key.
-/

import ClassLint.Proofs.Fingerprint.Stream
import ClassLint.Proofs.Registry.Request
import ClassLint.Proofs.Registry.Slots

namespace ClassLint

open Fingerprint (Section)

/-! ## Demands -/

/-- An engine that is asked at a moment for the registry of a configuration. -/
structure Demand where
  engine : Engine
  moment : Moment
  config : Config

namespace Demand

/-- The files that the engine takes the patterns to stand for. -/
def files (d : Demand) : List ResolvedFile :=
  (d.engine.files.resolve d.moment.now d.moment.tree d.config.stylesheets d.config.cwd).1.value

/-- The inputs of the catalogue, with their times of change. -/
def stamps (d : Demand) : List FileStamp :=
  Engine.stampsOf d.moment.tree (d.engine.catalogueInputs d.moment.tree d.config).1

/-- The sections of the key. -/
def sections (d : Demand) : List Section := Engine.keySections d.config d.files d.stamps

/-- The key. -/
def key (d : Demand) : Digest := Fingerprint.ofSections d.sections

/-- The registry as it is made on the spot. -/
def built (d : Demand) : Registry :=
  (Engine.request d.config d.files).build d.engine.generator d.moment.tree (some d.key)
    d.engine.extractor

/-- The registry that the engine gives out. -/
def registry (d : Demand) : Registry := (d.engine.registry d.moment d.config).1.value

/-- The engine afterwards. -/
def after (d : Demand) : Engine := (d.engine.registry d.moment d.config).2

@[simp]
theorem after_generator (d : Demand) : d.after.generator = d.engine.generator := rfl

@[simp]
theorem after_extractor (d : Demand) : d.after.extractor = d.engine.extractor := rfl

theorem after_layers (d : Demand) :
    d.after.layers = (d.engine.catalogueInputs d.moment.tree d.config).2 := rfl

theorem after_files (d : Demand) :
    d.after.files = (d.engine.files.resolve d.moment.now d.moment.tree d.config.stylesheets
      d.config.cwd).2 := rfl

@[simp]
theorem key?_built (d : Demand) : d.built.key? = some d.key := rfl

/-- What the slot of the configuration gives under the key. -/
def slotted (d : Demand) : Shared Registry × SlotCache Digest Registry :=
  d.engine.registries.get (Fingerprint.ofSections (Engine.slotSections d.config)) d.key
    fun _ => d.built

theorem registry_eq (d : Demand) : d.registry = d.slotted.1.value := rfl

theorem after_registries (d : Demand) : d.after.registries = d.slotted.2 := rfl

/-- The registry that is given out is held under the key of the demand, or it is
    the one made on the spot.  Nothing else enters the slots. -/
theorem registry_cases (d : Demand) :
    ((∃ entry ∈ d.engine.registries.entries, entry.2.1 = d.key ∧ entry.2.2.value = d.registry)
        ∨ d.registry = d.built)
      ∧ ∀ entry ∈ d.after.registries.entries,
        entry ∈ d.engine.registries.entries
          ∨ (entry.2.1 = d.key ∧ entry.2.2.value = d.registry ∧ d.registry = d.built) := by
  rcases d.engine.registries.get_cases (Fingerprint.ofSections (Engine.slotSections d.config))
    d.key fun _ => d.built with ⟨hmem, hsame⟩ | ⟨hvalue, hentries⟩
  · refine ⟨Or.inl ⟨_, hmem, rfl, rfl⟩, ?_⟩
    intro entry hentry
    refine Or.inl ?_
    rw [← hsame]
    exact hentry
  · -- the instance made now is the only entry that was not there before
    have hbuilt : d.registry = d.built := hvalue
    refine ⟨Or.inr hbuilt, ?_⟩
    intro entry hentry
    have hentry' : entry ∈ SlotCache.replace _ _ d.engine.registries.entries := hentries ▸ hentry
    rcases SlotCache.mem_replace hentry' with rfl | hold
    · exact Or.inr ⟨rfl, rfl, hbuilt⟩
    · exact Or.inl hold

end Demand

/-! ## Keys -/

/-- Every registry that the engine holds bears the key that it is held under. -/
def Engine.Keyed (e : Engine) : Prop :=
  ∀ entry ∈ e.registries.entries, entry.2.2.value.key? = some entry.2.1

theorem Engine.keyed_fresh (g : Generator) (lifetime : Nat) (extract : Extractor) :
    (fresh g lifetime extract).Keyed := by
  intro entry hentry
  exact absurd hentry (by simp [fresh, SlotCache.empty])

theorem Engine.keyed_clear (e : Engine) : e.clear.Keyed := by
  intro entry hentry
  exact absurd hentry (by simp [clear, SlotCache.clear])

namespace Demand

/-- The registry that is given out bears the key of the demand. -/
theorem key?_registry {d : Demand} (h : d.engine.Keyed) : d.registry.key? = some d.key := by
  rcases d.registry_cases.1 with ⟨entry, hentry, hkey, hvalue⟩ | hbuilt
  · rw [← hvalue, h entry hentry, hkey]
  · rw [hbuilt, key?_built]

theorem keyed_after {d : Demand} (h : d.engine.Keyed) : d.after.Keyed := by
  intro entry hentry
  rcases d.registry_cases.2 entry hentry with hold | ⟨hkey, hvalue, hbuilt⟩
  · exact h entry hold
  · rw [hvalue, hbuilt, key?_built, hkey]

end Demand

end ClassLint
