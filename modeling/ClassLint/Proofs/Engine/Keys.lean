/-
  ClassLint.Proofs.Engine.Keys

  The key of a registry tells everything that it is made from: the files with
  their times of change, the lists, the settings and inputs of the catalogue and
  the working directory.
-/

import ClassLint.Proofs.Engine.Session
import Mathlib.Data.List.Nodup

namespace ClassLint

open Fingerprint (Section Fit stream ofSections)

/-! ## Reached demands -/

/-- The demand comes up in some session of an engine that was new at its start. -/
def Demand.Reached (d : Demand) : Prop :=
  ∃ generator lifetime extract tree steps,
    d ∈ (Session.mk (.fresh generator lifetime extract) tree).demands steps

/-- What holds of a new engine and is kept by every step: registries bear the
    keys that they are held under, and readings are right. -/
theorem Session.keyed_after {s : Session} (hkeyed : s.engine.Keyed)
    (hright : s.engine.tokens.Right) (steps : List Step) :
    (s.after steps).engine.Keyed ∧ (s.after steps).engine.tokens.Right := by
  refine after_induction (P := fun e => e.Keyed ∧ e.tokens.Right) (fun e h => h.2)
    (fun e memo h hmemo => ⟨h.1, hmemo⟩)
    (fun e h => ⟨e.keyed_clear, TokenMemo.right_clear e.tokens⟩) ⟨hkeyed, hright⟩ steps ?_
  intro d _ h
  exact ⟨Demand.keyed_after h.1, h.2⟩

theorem Demand.Reached.keyed {d : Demand} (h : d.Reached) : d.engine.Keyed := by
  obtain ⟨generator, lifetime, extract, tree, steps, hd⟩ := h
  obtain ⟨before, rest, -, hengine, -⟩ := Session.eq_of_mem_demands hd
  rw [hengine]
  exact (Session.keyed_after (s := ⟨.fresh generator lifetime extract, tree⟩)
    (Engine.keyed_fresh generator lifetime extract) TokenMemo.right_empty before).1

/-! ## Sections of a key -/

/-- Without a catalogue there are no inputs. -/
theorem Demand.stamps_of_settings?_none {d : Demand}
    (h : d.config.catalogue.settings? = none) : d.stamps = [] := by
  unfold stamps Engine.catalogueInputs
  rw [h]
  rfl

/-- Equal sections are of demands that agree in everything a registry is made
    from. -/
theorem Demand.eq_of_sections_eq {d d' : Demand} (h : d.sections = d'.sections) :
    d.files = d'.files ∧ d.config.allowlist = d'.config.allowlist
      ∧ d.config.blocklist = d'.config.blocklist ∧ d.config.ignore = d'.config.ignore
      ∧ d.config.catalogue.settings? = d'.config.catalogue.settings? ∧ d.stamps = d'.stamps
      ∧ d.config.cwd = d'.config.cwd := by
  simp only [sections, Engine.keySections, Engine.listSections, Engine.catalogueSection,
    Engine.cwdSection, List.cons_append, List.nil_append, List.cons.injEq, Section.files.injEq,
    Section.list.injEq, Section.catalogue.injEq, Section.cwd.injEq, true_and, and_true] at h
  obtain ⟨hfiles, hallow, hblock, hignore, hsource, hcwd⟩ := h
  have hfiles' : d.files = d'.files :=
    (List.map_inj_right fun _ _ => ResolvedFile.stamp_injective).mp hfiles
  -- the section of the catalogue has stamps only where there are settings
  have hcatalogue : d.config.catalogue.settings? = d'.config.catalogue.settings?
      ∧ d.stamps = d'.stamps := by
    cases hs : d.config.catalogue.settings? with
    | none =>
      cases hs' : d'.config.catalogue.settings? with
      | none => exact ⟨rfl, by rw [stamps_of_settings?_none hs, stamps_of_settings?_none hs']⟩
      | some s' => exact absurd hsource (by simp [hs, hs'])
    | some s =>
      cases hs' : d'.config.catalogue.settings? with
      | none => exact absurd hsource (by simp [hs, hs'])
      | some s' =>
        simp only [hs, hs', Option.map_some, Option.some.injEq, Prod.mk.injEq] at hsource
        exact ⟨by rw [hsource.1], hsource.2⟩
  exact ⟨hfiles', hallow, hblock, hignore, hcatalogue.1, hcatalogue.2, Path.eq_of_bytes_eq hcwd⟩

/-- Digests tell some lists of sections apart: all lengths fit, as lengths in
    memory do, and the digest has no collision among the streams. -/
structure Fingerprint.Told (lists : List (List Section)) : Prop where
  fit : ∀ xs ∈ lists, Fit xs
  digest : ∀ xs ∈ lists, ∀ ys ∈ lists, ofSections xs = ofSections ys → stream xs = stream ys

namespace Fingerprint.Told

variable {lists lists' : List (List Section)}

theorem sections_eq (h : Told lists) {xs ys : List Section} (hxs : xs ∈ lists)
    (hys : ys ∈ lists) (heq : ofSections xs = ofSections ys) : xs = ys :=
  stream_injective (h.fit xs hxs) (h.fit ys hys) (h.digest xs hxs ys hys heq)

theorem mono (h : Told lists) (hsub : ∀ xs ∈ lists', xs ∈ lists) : Told lists' where
  fit xs hxs := h.fit xs (hsub xs hxs)
  digest xs hxs ys hys := h.digest xs (hsub xs hxs) ys (hsub ys hys)

/-- Lists are told apart if their digests are all different. -/
theorem of_nodup (hfit : ∀ xs ∈ lists, Fit xs) (h : (lists.map ofSections).Nodup) :
    Told lists where
  fit := hfit
  digest xs hxs ys hys heq := by rw [List.inj_on_of_nodup_map h hxs hys heq]

/-- Lists that are all the same are told apart. -/
theorem of_forall_eq {xs : List Section} (hfit : Fit xs) (h : ∀ ys ∈ lists, ys = xs) :
    Told lists where
  fit ys hys := h ys hys ▸ hfit
  digest ys hys zs hzs _ := by rw [h ys hys, h zs hzs]

end Fingerprint.Told

/-- **A fingerprint tells everything.**  Two lists of sections whose lengths fit
    have the same stream only if they are the same.  So two registries that
    engines ever give out, whatever happened before, have the same key only if
    the files, the lists, the settings, the inputs of the catalogue and the
    working directory are all the same, unless the digest of the two streams is
    a collision. -/
theorem Fingerprint.sections_eq_of_stream_eq :
    (∀ xs ys : List Section, Fit xs → Fit ys → stream xs = stream ys → xs = ys)
    ∧ ∀ d d' : Demand, d.Reached → d'.Reached → Told [d.sections, d'.sections] →
        d.registry.key? = d'.registry.key? →
        d.files = d'.files ∧ d.config.allowlist = d'.config.allowlist
          ∧ d.config.blocklist = d'.config.blocklist ∧ d.config.ignore = d'.config.ignore
          ∧ d.config.catalogue.settings? = d'.config.catalogue.settings? ∧ d.stamps = d'.stamps
          ∧ d.config.cwd = d'.config.cwd := by
  refine ⟨fun xs ys hxs hys h => stream_injective hxs hys h, ?_⟩
  intro d d' hreached hreached' htold hkey
  rw [Demand.key?_registry hreached.keyed, Demand.key?_registry hreached'.keyed,
    Option.some.injEq] at hkey
  have hsections : d.sections = d'.sections := htold.sections_eq (by simp) (by simp) hkey
  exact Demand.eq_of_sections_eq hsections

/-! ## A stylesheet in two trees -/

/-- A tree with a stylesheet. -/
def FileTree.styled : FileTree :=
  (FileTree.ofWorkingDirectory [] 5).apply
    (.write (.ofString "a.css") (Text.toBytes ".b \x7b\x7d".toList) 7)

/-- A configuration of the stylesheet. -/
def Config.styling : Config where
  stylesheets := ["a.css".toList]
  cwd := .ofString "."

/-- A demand of a new engine comes up in a session that asks for nothing else. -/
theorem Demand.reached_fresh (generator : Generator) (lifetime : Nat) (extract : Extractor)
    (m : Moment) (c : Config) : (Demand.mk (.fresh generator lifetime extract) m c).Reached := by
  refine ⟨generator, lifetime, extract, m.tree, [.call m.now (.registry c)], ?_⟩
  rw [Session.demands_call _ _ rfl]
  exact List.mem_singleton.mpr rfl

/-- An item with a blank in it is not two items.  And a directory elsewhere in the
    tree does not enter the key of the stylesheet, nor does the engine. -/
theorem Fingerprint.sections_eq_of_stream_eq_styled :
    (Fit [.list "allowlist".toList ["a b".toList]]
      ∧ Fit [.list "allowlist".toList ["a".toList, "b".toList]]
      ∧ stream [.list "allowlist".toList ["a b".toList]]
        ≠ stream [.list "allowlist".toList ["a".toList, "b".toList]])
    ∧ let d : Demand := ⟨.fresh .design 0, ⟨.styled, 0⟩, .styling⟩
      let d' : Demand := ⟨.fresh (.failing []) 9,
        ⟨FileTree.styled.apply (.makeDirectory (.ofString "b")), 3⟩, .styling⟩
      d.Reached ∧ d'.Reached ∧ Told [d.sections, d'.sections]
        ∧ d.registry.key? = d'.registry.key? ∧ d.files = d'.files
        ∧ d.files = [⟨.ofString "a.css", 7⟩] := by
  constructor
  · refine ⟨by decide, by decide, fun h => ?_⟩
    exact absurd (sections_eq_of_stream_eq.1 _ _ (by decide) (by decide) h) (by decide)
  · intro d d'
    have hsame : d.sections = d'.sections := by decide +kernel
    have hfiles : d.files = [⟨.ofString "a.css", 7⟩] := by decide +kernel
    have hfit : Fit d.sections := by decide +kernel
    have hreached : d.Reached := Demand.reached_fresh _ _ _ _ _
    have hreached' : d'.Reached := Demand.reached_fresh _ _ _ _ _
    have htold : Told [d.sections, d'.sections] := Told.of_forall_eq hfit (by simp [hsame])
    have hkey : d.registry.key? = d'.registry.key? := by
      rw [Demand.key?_registry hreached.keyed, Demand.key?_registry hreached'.keyed, Demand.key,
        Demand.key, hsame]
    exact ⟨hreached, hreached', htold, hkey,
      (sections_eq_of_stream_eq.2 d d' hreached hreached' htold hkey).1, hfiles⟩

end ClassLint
