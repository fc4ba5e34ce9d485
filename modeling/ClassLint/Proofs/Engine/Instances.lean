/-
  ClassLint.Proofs.Engine.Instances

  Which instance of a registry an engine gives out.  A configuration has one slot,
  and requests for other slots leave it alone.  So the instance stays the same
  from one request to the next as long as the key does.
-/

import ClassLint.Proofs.Engine.Session

namespace ClassLint

namespace Demand

/-- The slot of the configuration. -/
def slot (d : Demand) : Digest := Fingerprint.ofSections (Engine.slotSections d.config)

theorem lookup?_after (d : Demand) :
    d.after.registries.lookup? d.slot = some (d.key, (d.engine.registry d.moment d.config).1) := by
  rw [after_registries, slotted, ← slot, SlotCache.lookup?_get, BEq.rfl, if_pos rfl]
  rfl

theorem lookup?_after_of_ne (d : Demand) {slot : Digest} (h : d.slot ≠ slot) :
    d.after.registries.lookup? slot = d.engine.registries.lookup? slot := by
  rw [after_registries, slotted]
  exact SlotCache.lookup?_get_of_ne _ h.symm _ _

/-- An engine that holds an instance under the key of a demand gives it out. -/
theorem registry_of_lookup? {d : Demand} {x : Shared Registry}
    (h : d.engine.registries.lookup? d.slot = some (d.key, x)) :
    (d.engine.registry d.moment d.config).1 = x := by
  have hget : d.slotted = (x, d.engine.registries) := SlotCache.get_of_lookup? h _
  exact congrArg Prod.fst hget

end Demand

/-- A call that demands a registry leaves behind the registries that its demand does. -/
theorem Engine.registries_answer {e : Engine} {m : Moment} {call : Call}
    (h : call.demands = true) :
    (e.answer m call).2.registries = (Demand.mk e m call.config).after.registries := by
  cases htokens : call.tokens? with
  | none =>
    cases call with
    | registry c => rfl
    | checkTokens | checkText | checkExpression => exact absurd htokens (by simp [Call.tokens?])
  | some tokens =>
    have hempty : tokens.isEmpty = false := by simpa [Call.demands, htokens] using h
    rw [answer_of_tokens? htokens]
    simp only [checkTokens, hempty, Bool.false_eq_true, if_false]
    rfl

namespace Session

/-- A slot keeps what it holds through all steps that are no reset and demand
    nothing of that slot. -/
theorem lookup?_after {s : Session} {steps : List Step} {slot : Digest}
    (hclear : Step.clear ∉ steps) (hother : ∀ d ∈ s.demands steps, d.slot ≠ slot) :
    (s.after steps).engine.registries.lookup? slot = s.engine.registries.lookup? slot := by
  induction steps generalizing s with
  | nil => rfl
  | cons step rest ih =>
    rw [demands_cons] at hother
    have hrest := ih (s := s.next step) (fun h => hclear (List.mem_cons_of_mem _ h))
      fun d hd => hother d (List.mem_append_right _ hd)
    rw [after_cons, hrest]
    cases step with
    | change change => rfl
    | clear => exact absurd List.mem_cons_self hclear
    | call now call =>
      cases hdemands : call.demands with
      | false => rw [next_of_not_demands s now hdemands]
      | true =>
        have hne := hother ⟨s.engine, ⟨s.tree, now⟩, call.config⟩
          (by rw [demands_call s now hdemands]; exact List.mem_append_left _ List.mem_cons_self)
        simp only [next]
        rw [Engine.registries_answer hdemands]
        exact Demand.lookup?_after_of_ne _ hne

end Session

open SlotCache (latest? History Event)

/-- **A slot holds its latest instance.**  After any requests and resets a request
    gives the very instance that the latest request for its slot gave, if there is
    one since the last reset and its key is the same; nothing is made then and
    nothing changes.  Otherwise its value is made, under a number that no instance
    has had before.  The slots in use are those asked for since the last reset, each
    with the instance of its latest request.

    So the registry of a configuration is the same instance at two calls with the
    same key, whatever files change and whatever is demanded of other slots in
    between. -/
theorem latest_instances_kept :
    (∀ (κ α : Type) [DecidableEq κ] (steps : List (SlotCache.Step κ α)),
      let h : History κ α := .after steps
      (∀ slot key x make, latest? slot h.events = some (key, x) →
          h.cache.get slot key make = (x, h.cache))
        ∧ (∀ slot key make, (∀ x, latest? slot h.events ≠ some (key, x)) →
          (h.cache.get slot key make).1 = ⟨h.cache.made, make ()⟩
            ∧ (h.cache.get slot key make).2.made = h.cache.made + 1
            ∧ ∀ slot' key' x, Event.given slot' key' x ∈ h.events → x.id ≠ h.cache.made)
        ∧ (h.cache.entries.map Prod.fst).Nodup
        ∧ (∀ slot entry, (slot, entry) ∈ h.cache.entries ↔ latest? slot h.events = some entry)
        ∧ ∀ id, h.cache.holds id = true ↔
          ∃ slot key x, latest? slot h.events = some (key, x) ∧ x.id = id)
    ∧ ∀ (e : Engine) (m : Moment) (c : Config) (steps : List Session.Step) (now : Nat),
      let first := e.registry m c
      let s := (Session.mk first.2 m.tree).after steps
      Session.Step.clear ∉ steps →
      (∀ d ∈ (Session.mk first.2 m.tree).demands steps, d.slot ≠ (Demand.mk e m c).slot) →
      (Demand.mk s.engine ⟨s.tree, now⟩ c).key = (Demand.mk e m c).key →
      (s.engine.registry ⟨s.tree, now⟩ c).1 = first.1 := by
  constructor
  · intro κ α _ steps h
    have hkept : h.Kept := History.kept_after steps
    refine ⟨?_, ?_, hkept.nodup, hkept.mem_entries_iff, hkept.holds_iff⟩
    · intro slot key x make hlatest
      rw [← hkept.lookup? slot] at hlatest
      exact SlotCache.get_of_lookup? hlatest make
    · intro slot key make hlatest
      rw [← hkept.lookup? slot] at hlatest
      rw [SlotCache.get_of_lookup?_ne hlatest make]
      exact ⟨rfl, rfl, fun slot' key' x hgiven => Nat.ne_of_lt (hkept.id_lt slot' key' x hgiven)⟩
  · intro e m c steps now first s hclear hother hkey
    have hheld : s.engine.registries.lookup? (Demand.mk e m c).slot
        = some ((Demand.mk e m c).key, first.1) :=
      (Session.lookup?_after hclear hother).trans (Demand.mk e m c).lookup?_after
    refine Demand.registry_of_lookup? (d := ⟨s.engine, ⟨s.tree, now⟩, c⟩) ?_
    rw [hkey]
    exact hheld

/-! ## A request for another slot in between -/

/-- Nothing is found for a list, and so its sections are the same everywhere. -/
theorem Demand.sections_listing (e : Engine) (m : Moment) (name : String) :
    (Demand.mk e m (.listing name)).sections = Engine.keySections (.listing name) [] [] := rfl

set_option maxRecDepth 10000 in
/-- Two lists have two slots. -/
theorem ofSections_listing_ne : Fingerprint.ofSections (Engine.slotSections (.listing "a"))
    ≠ Fingerprint.ofSections (Engine.slotSections (.listing "b")) := by
  decide +kernel

/-- Requests for two slots. -/
def requests : List (SlotCache.Step Nat Nat) :=
  [.get 0 7 fun _ => 10, .get 1 7 fun _ => 11]

/-- A file is written and the other list is asked for. -/
def Session.elsewhere : List Session.Step :=
  [.change (.write (.ofString "a.css") (Text.toBytes ".b \x7b\x7d".toList) 7),
    .call 1 (.registry (.listing "b"))]

theorem latest_instances_kept_elsewhere :
    (latest? 0 (History.after requests).events = some (7, ⟨0, 10⟩)
      ∧ (History.after requests).cache.get 0 7 (fun _ => 12)
        = (⟨0, 10⟩, (History.after requests).cache)
      ∧ ((History.after requests).cache.get 0 8 fun _ => 12).1 = ⟨2, 12⟩)
    ∧ let m : Moment := ⟨.ofWorkingDirectory [] 5, 0⟩
      let first := Engine.standard.registry m (.listing "a")
      let s := (Session.mk first.2 m.tree).after Session.elsewhere
      (s.engine.registry ⟨s.tree, 2⟩ (.listing "a")).1 = first.1 := by
  constructor
  · have hlatest : latest? 0 (History.after requests).events = some (7, ⟨0, 10⟩) := rfl
    obtain ⟨hheld, hmade, -⟩ := latest_instances_kept.1 Nat Nat requests
    refine ⟨hlatest, hheld 0 7 _ _ hlatest, (hmade 0 8 (fun _ => 12) fun x hx => ?_).1⟩
    rw [hlatest] at hx
    simp at hx
  · intro m first s
    have hkey : (Demand.mk s.engine ⟨s.tree, 2⟩ (.listing "a")).key
        = (Demand.mk Engine.standard m (.listing "a")).key := by
      rw [Demand.key, Demand.key, Demand.sections_listing, Demand.sections_listing]
    refine latest_instances_kept.2 Engine.standard m (.listing "a") Session.elsewhere 2
      (by simp [Session.elsewhere]) (fun d hd => ?_) hkey
    have hconfig : d.config = .listing "b" := by
      rw [Session.elsewhere, Session.demands_cons, Session.demands_call _ 1 rfl] at hd
      rw [List.mem_singleton.mp hd]
      rfl
    rw [Demand.slot, hconfig]
    exact ofSections_listing_ne.symm

end ClassLint
