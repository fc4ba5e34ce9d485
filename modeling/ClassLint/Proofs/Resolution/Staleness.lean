/-
  ClassLint.Proofs.Resolution.Staleness

  How old the answers of a cache of resolved files can be.  In a run in the order of the
  clock every answer is what a request of the run for the same pair resolved, at or after
  the latest reset: the request itself, or one that is younger than the lifetime.  As long
  as it is, a pair is given the same instance again.

  A pair is a list of patterns and a directory however that is spelled, and what patterns
  stand for may hang on the spelling.  The answer then is right for the spelling of the
  request that was resolved, and can be wrong for the other.
-/

import ClassLint.Proofs.Resolution.Requests
import Mathlib.Data.List.Induction

namespace ClassLint.ResolutionCache

/-! ## Runs -/

/-- The request that a step makes. -/
def Step.request? : Step → Option Request
  | .resolve r => some r
  | .clear => none

/-- The requests of a run. -/
def requests (steps : List Step) : List Request := steps.filterMap Step.request?

/-- The requests of a run since the latest reset, after some from before. -/
def sinceClearFrom : List Request → List Step → List Request
  | seen, [] => seen
  | seen, .resolve r :: rest => sinceClearFrom (seen ++ [r]) rest
  | _, .clear :: rest => sinceClearFrom [] rest

/-- The requests of a run since the latest reset. -/
def sinceClear (steps : List Step) : List Request := sinceClearFrom [] steps

/-- No request comes at an earlier time than the one before it. -/
def InClockOrder (steps : List Step) : Prop := (requests steps).Pairwise (·.now ≤ ·.now)

instance (steps : List Step) : Decidable (InClockOrder steps) :=
  inferInstanceAs (Decidable ((requests steps).Pairwise (·.now ≤ ·.now)))

/-- The answer to a request after some steps of a run. -/
def answerTo (lifetime : Nat) (before : List Step) (r : Request) : Shared (List ResolvedFile) :=
  (((empty lifetime).after before).answer r).1

/-- The request that an instance was made for: the first of the run to be given it. -/
def origin? (lifetime : Nat) (steps : List Step) (x : Shared (List ResolvedFile)) :
    Option Request :=
  (((empty lifetime).answers steps).find? fun p => p.2 == x).map Prod.fst

/-- What a cache promises of a run. -/
structure BoundedStaleness (lifetime : Nat) (steps : List Step) : Prop where
  /-- A request for no pattern is given no file, and nothing is remembered of it. -/
  nothing : ∀ (before : List Step) (r : Request) (rest : List Step),
    steps = before ++ .resolve r :: rest → r.patterns = [] →
      (answerTo lifetime before r).value = []
        ∧ ((empty lifetime).after (before ++ [.resolve r])).entries
          = ((empty lifetime).after before).entries
  /-- Any other is given what a request of the run for the same pair resolved since the latest
      reset: the request itself, or one younger than the lifetime. -/
  resolved : ∀ (before : List Step) (r : Request) (rest : List Step),
    steps = before ++ .resolve r :: rest → r.patterns ≠ [] →
      ∃ o, origin? lifetime (before ++ [.resolve r]) (answerTo lifetime before r) = some o
        ∧ o ∈ sinceClear (before ++ [.resolve r])
        ∧ o.patterns = r.patterns ∧ o.cwd.same r.cwd = true
        ∧ (answerTo lifetime before r).value = o.files
        ∧ (o = r ∨ o.now ≤ r.now ∧ r.now - o.now < lifetime)
  /-- As long as what was resolved is younger than the lifetime, and there is no reset, the pair
      is given the same instance again. -/
  again : ∀ (before : List Step) (r : Request) (between : List Step) (r' : Request)
    (rest : List Step) (o : Request),
    steps = before ++ .resolve r :: (between ++ .resolve r' :: rest) →
      r.patterns ≠ [] → r'.isFor r.patterns r.cwd = true → Step.clear ∉ between →
      origin? lifetime (before ++ [.resolve r]) (answerTo lifetime before r) = some o →
      r'.now - o.now < lifetime →
        answerTo lifetime (before ++ .resolve r :: between) r' = answerTo lifetime before r
  /-- What a pair is given is the same without the requests for other pairs. -/
  alone : ∀ (patterns : List Text) (cwd : Path),
    Alike ((empty lifetime).answersFor patterns cwd steps)
      ((empty lifetime).answersFor patterns cwd (steps.filter (Step.concerns patterns cwd)))

/-! ## One more step -/

variable {lifetime : Nat} {steps before : List Step} {r : Request}

theorem sinceClearFrom_append (seen : List Request) (a b : List Step) :
    sinceClearFrom seen (a ++ b) = sinceClearFrom (sinceClearFrom seen a) b := by
  induction a generalizing seen with
  | nil => rfl
  | cons step rest ih =>
    cases step with
    | resolve r => exact ih _
    | clear => exact ih _

theorem sinceClear_resolve (steps : List Step) (r : Request) :
    sinceClear (steps ++ [.resolve r]) = sinceClear steps ++ [r] :=
  sinceClearFrom_append _ _ _

theorem requests_resolve (steps : List Step) (r : Request) :
    requests (steps ++ [.resolve r]) = requests steps ++ [r] := List.filterMap_append

theorem requests_cons_resolve (r : Request) (rest : List Step) :
    requests (.resolve r :: rest) = r :: requests rest := rfl

theorem requests_append (a b : List Step) : requests (a ++ b) = requests a ++ requests b :=
  List.filterMap_append

theorem mem_requests_of_mem_sinceClear {o : Request} (h : o ∈ sinceClear steps) :
    o ∈ requests steps := by
  induction steps using List.reverseRecOn with
  | nil => exact h
  | append_singleton steps step ih =>
    rw [requests_append]
    cases step with
    | resolve r =>
      rw [sinceClear_resolve, List.mem_append] at h
      exact List.mem_append.mpr (h.imp ih id)
    | clear =>
      rw [sinceClear, sinceClearFrom_append] at h
      exact absurd h List.not_mem_nil

theorem after_resolve (lifetime : Nat) (steps : List Step) (r : Request) :
    (empty lifetime).after (steps ++ [.resolve r])
      = (((empty lifetime).after steps).answer r).2 := after_append _ _ _

theorem answers_resolve (lifetime : Nat) (steps : List Step) (r : Request) :
    (empty lifetime).answers (steps ++ [.resolve r])
      = (empty lifetime).answers steps ++ [(r, answerTo lifetime steps r)] := answers_append _ _ _

/-- An instance keeps its origin as the run goes on. -/
theorem origin?_append {o : Request} {x : Shared (List ResolvedFile)}
    (h : origin? lifetime steps x = some o) (more : List Step) :
    origin? lifetime (steps ++ more) x = some o := by
  obtain ⟨p, hfound, rfl⟩ := Option.map_eq_some_iff.mp h
  unfold origin?
  rw [answers_append, List.find?_append, hfound]
  rfl

/-- The origin of an instance that no request was given before. -/
theorem origin?_of_new {files : List ResolvedFile}
    (hnew : ∀ p ∈ (empty lifetime).answers steps, p.2.id < ((empty lifetime).after steps).made)
    (h : answerTo lifetime steps r = ⟨((empty lifetime).after steps).made, files⟩) :
    origin? lifetime (steps ++ [.resolve r]) (answerTo lifetime steps r) = some r := by
  have hnone : ((empty lifetime).answers steps).find?
      (fun p => p.2 == answerTo lifetime steps r) = none := by
    refine List.find?_eq_none.mpr fun p hp heq => Nat.lt_irrefl _ (?_ : p.2.id < p.2.id)
    calc p.2.id < ((empty lifetime).after steps).made := hnew p hp
      _ = p.2.id := by rw [beq_iff_eq.mp heq, h]
  unfold origin?
  rw [answers_resolve, List.find?_append, hnone]
  simp

/-! ## What a cache holds after a run -/

/-- The entry holds what a request resolved since the latest reset, under the time of that. -/
def IsFrom (lifetime : Nat) (steps : List Step) (e : CachedResolution) (o : Request) : Prop :=
  origin? lifetime steps e.files = some o ∧ o ∈ sinceClear steps
    ∧ e.patterns = o.patterns ∧ e.cwd = o.cwd ∧ e.resolvedAt = o.now ∧ e.files.value = o.files

/-- What holds of the cache after a run. -/
structure Kept (lifetime : Nat) (steps : List Step) (cache : ResolutionCache) : Prop where
  id_lt : ∀ p ∈ (empty lifetime).answers steps, p.2.id < cache.made
  isFrom : ∀ e ∈ cache.entries, ∃ o, IsFrom lifetime steps e o

theorem IsFrom.resolve {e : CachedResolution} {o : Request} (h : IsFrom lifetime steps e o)
    (r : Request) : IsFrom lifetime (steps ++ [.resolve r]) e o := by
  obtain ⟨horigin, hsince, hrest⟩ := h
  refine ⟨origin?_append horigin _, ?_, hrest⟩
  rw [sinceClear_resolve]
  exact List.mem_append_left _ hsince

/-- A step keeps it so. -/
theorem Kept.resolve (h : Kept lifetime steps ((empty lifetime).after steps)) (r : Request) :
    Kept lifetime (steps ++ [.resolve r]) (((empty lifetime).after steps).answer r).2 := by
  have hold : ∀ e ∈ ((empty lifetime).after steps).entries,
      ∃ o, IsFrom lifetime (steps ++ [.resolve r]) e o := fun e he =>
    (h.isFrom e he).imp fun _ hfrom => hfrom.resolve r
  -- numbers given before stay below, and so does the one given now
  have hlt : ∀ made, ((empty lifetime).after steps).made ≤ made →
      (answerTo lifetime steps r).id < made →
      ∀ p ∈ (empty lifetime).answers (steps ++ [.resolve r]), p.2.id < made := by
    intro made hle hnow p hp
    rw [answers_resolve, List.mem_append, List.mem_singleton] at hp
    rcases hp with hp | rfl
    · exact Nat.lt_of_lt_of_le (h.id_lt p hp) hle
    · exact hnow
  rcases ((empty lifetime).after steps).answer_cases r with
    ⟨-, heq⟩ | ⟨-, e, hentry, -, heq⟩ | ⟨-, -, heq⟩
  · have hnow : (answerTo lifetime steps r).id = ((empty lifetime).after steps).made := by
      rw [answerTo, heq]
    rw [heq]
    exact ⟨hlt _ (Nat.le_succ _) (hnow ▸ Nat.lt_succ_self _), hold⟩
  · have hnow : answerTo lifetime steps r = e.files := by rw [answerTo, heq]
    obtain ⟨o, horigin, -⟩ := h.isFrom e (List.mem_of_find?_eq_some hentry)
    -- the instance was given before, so its number is below
    obtain ⟨p, hfound, -⟩ := Option.map_eq_some_iff.mp horigin
    have hgiven : p.2 = e.files := by simpa using List.find?_some hfound
    have hid : (answerTo lifetime steps r).id < ((empty lifetime).after steps).made := by
      rw [hnow, ← hgiven]
      exact h.id_lt p (List.mem_of_find?_eq_some hfound)
    rw [heq]
    exact ⟨hlt _ (Nat.le_refl _) hid, hold⟩
  · have hnow : answerTo lifetime steps r
        = ⟨((empty lifetime).after steps).made, r.files⟩ := by rw [answerTo, heq]
    have horigin := origin?_of_new h.id_lt hnow
    rw [hnow] at horigin
    rw [heq]
    refine ⟨hlt _ (Nat.le_succ _) (by rw [hnow]; exact Nat.lt_succ_self _), ?_⟩
    intro e he
    rcases List.mem_cons.mp he with rfl | he
    · exact ⟨r, horigin, by simp [sinceClear_resolve], rfl, rfl, rfl, rfl⟩
    · exact hold e (List.mem_of_mem_filter he)

/-- It holds after every run. -/
theorem kept (lifetime : Nat) (steps : List Step) :
    Kept lifetime steps ((empty lifetime).after steps) := by
  induction steps using List.reverseRecOn with
  | nil => exact ⟨fun _ hp => absurd hp List.not_mem_nil, fun _ he => absurd he List.not_mem_nil⟩
  | append_singleton steps step ih =>
    cases step with
    | resolve r =>
      rw [after_resolve]
      exact ih.resolve r
    | clear =>
      rw [after_append]
      refine ⟨?_, fun _ he => absurd he List.not_mem_nil⟩
      rw [answers_append, show ((empty lifetime).after steps).answers [.clear] = [] from rfl,
        List.append_nil]
      exact ih.id_lt

/-! ## What a request is given -/

/-- A request for some pattern is given what it resolves itself, or the entry of its pair. -/
theorem answerTo_isFrom (lifetime : Nat) (before : List Step) (h : r.patterns ≠ []) :
    ∃ e o, ((empty lifetime).after (before ++ [.resolve r])).held? r.patterns r.cwd = some e
      ∧ e.files = answerTo lifetime before r
      ∧ IsFrom lifetime (before ++ [.resolve r]) e o
      ∧ (o = r ∨ r.now - o.now < lifetime) := by
  have hkept := kept lifetime before
  have hlifetime : ((empty lifetime).after before).lifetime = lifetime := lifetime_after _ _
  have hafter := after_resolve lifetime before r
  rcases ((empty lifetime).after before).answer_cases r with
    ⟨hnil, -⟩ | ⟨-, e, hentry, hyoung, heq⟩ | ⟨-, -, heq⟩
  · exact absurd hnil h
  · obtain ⟨o, hfrom⟩ := hkept.isFrom e (List.mem_of_find?_eq_some hentry)
    rw [heq] at hafter
    refine ⟨e, o, by rw [hafter]; exact hentry, by rw [answerTo, heq], hfrom.resolve r, Or.inr ?_⟩
    obtain ⟨-, -, -, -, hat, -⟩ := hfrom
    rw [← hat, ← hlifetime]
    exact hyoung
  · have hnow : answerTo lifetime before r
        = ⟨((empty lifetime).after before).made, r.files⟩ := by rw [answerTo, heq]
    have horigin := origin?_of_new hkept.id_lt hnow
    rw [hnow] at horigin
    rw [heq] at hafter
    refine ⟨_, r, by rw [hafter]; exact List.find?_cons_of_pos (isFor_self r), hnow.symm, ?_,
      Or.inl rfl⟩
    exact ⟨horigin, by simp [sinceClear_resolve], rfl, rfl, rfl, rfl⟩

/-- An entry stays through requests that come while it is young enough. -/
theorem held?_after {cache : ResolutionCache} {patterns : List Text} {cwd : Path}
    {e : CachedResolution} {between : List Step} (hentry : cache.held? patterns cwd = some e)
    (hclear : Step.clear ∉ between)
    (hyoung : ∀ q ∈ requests between, q.now - e.resolvedAt < cache.lifetime) :
    (cache.after between).held? patterns cwd = some e := by
  induction between generalizing cache with
  | nil => exact hentry
  | cons step rest ih =>
    cases step with
    | clear => exact absurd List.mem_cons_self hclear
    | resolve q =>
      have hq := hyoung q List.mem_cons_self
      refine ih ?_ (fun hmem => hclear (List.mem_cons_of_mem _ hmem)) ?_
      · cases hfor : q.isFor patterns cwd with
        | false => exact (held?_answer_of_other hfor).trans hentry
        | true =>
          have hpair := (held?_of_isFor hfor cache).trans hentry
          show (cache.answer q).2.held? patterns cwd = some e
          rcases cache.answer_cases q with ⟨-, heq⟩ | ⟨-, _, -, -, heq⟩ | ⟨-, hold, -⟩
          · rw [heq]
            exact hentry
          · rw [heq]
            exact hentry
          · exact absurd hq (Nat.not_lt.mpr (hold e hpair))
      · intro q' hq'
        have hlifetime : (cache.next (.resolve q)).lifetime = cache.lifetime :=
          cache.lifetime_answer q
        rw [hlifetime]
        exact hyoung q' (List.mem_cons_of_mem _ hq')

/-- A request is given what its pair's entry holds while that is young enough. -/
theorem answer_of_held? {cache : ResolutionCache} {e : CachedResolution} (h : r.patterns ≠ [])
    (hentry : cache.held? r.patterns r.cwd = some e)
    (hyoung : r.now - e.resolvedAt < cache.lifetime) : (cache.answer r).1 = e.files := by
  rcases cache.answer_cases r with ⟨hnil, -⟩ | ⟨-, e', hentry', -, heq⟩ | ⟨-, hold, -⟩
  · exact absurd hnil h
  · obtain rfl : e' = e := Option.some.inj (hentry'.symm.trans hentry)
    rw [heq]
  · exact absurd hyoung (Nat.not_lt.mpr (hold e hentry))

/-- The requests of a run in the order of the clock came no later than its last. -/
theorem InClockOrder.now_le {rest : List Step} {o : Request}
    (h : InClockOrder (before ++ .resolve r :: rest)) (ho : o ∈ requests (before ++ [.resolve r])) :
    o.now ≤ r.now := by
  rw [requests_resolve, List.mem_append, List.mem_singleton] at ho
  rcases ho with ho | rfl
  · rw [InClockOrder, requests_append, requests_cons_resolve, List.pairwise_append] at h
    exact h.2.2 o ho r List.mem_cons_self
  · exact Nat.le_refl _

/-- **An answer is as old as the lifetime at most.**  Let requests and resets come in
    the order of the clock.  Then without patterns nothing is found.  Any other answer
    was resolved for a request of the run since the latest reset, for the same patterns
    and the same directory however spelled, in the tree of that time: it is the answer to
    the request itself, or that one is younger than the lifetime.  And as long as it is,
    the same instance is given again. -/
theorem boundedStaleness_of_inClockOrder (lifetime : Nat) (steps : List Step)
    (hclock : InClockOrder steps) : BoundedStaleness lifetime steps where
  nothing before r rest hsteps hnil := by
    rw [after_resolve]
    exact answer_of_nil hnil
  resolved before r rest hsteps hsome := by
    subst hsteps
    obtain ⟨e, o, hentry, hfiles, ⟨horigin, hsince, hpatterns, hcwd, -, hvalue⟩, hwhen⟩ :=
      answerTo_isFrom lifetime before hsome
    have hpair := List.find?_some hentry
    simp only [isFor, Bool.and_eq_true, beq_iff_eq] at hpair
    refine ⟨o, hfiles ▸ horigin, hsince, hpatterns ▸ hpair.1, hcwd ▸ hpair.2, hfiles ▸ hvalue, ?_⟩
    exact hwhen.imp_right fun hyoung =>
      ⟨hclock.now_le (mem_requests_of_mem_sinceClear hsince), hyoung⟩
  again before r between r' rest o hsteps hsome hpair hclear ho hyoung := by
    subst hsteps
    obtain ⟨e, o', hentry, hfiles, ⟨horigin, hsince, -, -, hat, -⟩, -⟩ :=
      answerTo_isFrom lifetime before hsome
    obtain rfl : o' = o := Option.some.inj (horigin.symm.trans (hfiles ▸ ho))
    have hlifetime : ((empty lifetime).after (before ++ [.resolve r])).lifetime = lifetime :=
      lifetime_after _ _
    rw [show before ++ .resolve r :: (between ++ .resolve r' :: rest)
      = (before ++ .resolve r :: between) ++ .resolve r' :: rest by simp] at hclock
    rw [show before ++ .resolve r :: between = (before ++ [.resolve r]) ++ between by simp]
      at hclock ⊢
    -- whatever comes in between finds the entry at most as old as the last request does
    have hyoung' : ∀ q ∈ requests between, q.now - e.resolvedAt
        < ((empty lifetime).after (before ++ [.resolve r])).lifetime := by
      intro q hq
      have hle : q.now ≤ r'.now := by
        refine hclock.now_le ?_
        rw [requests_resolve, requests_append]
        exact List.mem_append_left _ (List.mem_append_right _ hq)
      rw [hlifetime, hat]
      omega
    have hheld := held?_after hentry hclear hyoung'
    rw [answerTo, after_append, ← hfiles]
    refine answer_of_held? ?_ ((held?_of_isFor hpair _).trans hheld) ?_
    · simp only [Request.isFor, Bool.and_eq_true, beq_iff_eq] at hpair
      rw [hpair.1]
      exact hsome
    · rw [lifetime_after, hlifetime, hat]
      exact hyoung
  alone patterns cwd := alike_answersFor lifetime patterns cwd steps

/-! ## Two runs -/

/-- A directory with one stylesheet, last changed at a time. -/
def withSheet (modified : Int) : FileTree :=
  ((FileTree.ofWorkingDirectory [] 5).put ["p".toList] (.directory 5)).put
    ["p".toList, "a.css".toList] (.file (Text.toBytes ".a{}".toList) modified)

/-- A request for the stylesheets of a directory. -/
def sheetsOf (cwd : String) (now : Nat) (modified : Int) : Request :=
  ⟨now, withSheet modified, ["*.css".toList], .ofString cwd⟩

/-- The stylesheet changes after the first request, and is seen to have changed when the
    lifetime is over. -/
def changed : List Step :=
  [.resolve (sheetsOf "p" 0 7), .resolve (sheetsOf "p" 900 8), .resolve (sheetsOf "p" 1000 8)]

theorem boundedStaleness_changed :
    InClockOrder changed ∧ BoundedStaleness 1000 changed
      ∧ ((empty 1000).answers changed).map Prod.snd
        = [⟨0, [⟨.ofString "p/a.css", 7⟩]⟩, ⟨0, [⟨.ofString "p/a.css", 7⟩]⟩,
          ⟨1, [⟨.ofString "p/a.css", 8⟩]⟩] := by
  have hclock : InClockOrder changed := by decide +kernel
  exact ⟨hclock, boundedStaleness_of_inClockOrder 1000 changed hclock, by decide +kernel⟩

/-- The same directory, spelled with one slash more, is given the stylesheet of the other
    spelling, though its own patterns stand for none at any moment of the run. -/
theorem answerTo_respelled_ne :
    InClockOrder [.resolve (sheetsOf "./p" 0 7), .resolve (sheetsOf ".//p" 0 7)]
      ∧ (answerTo 1000 [.resolve (sheetsOf "./p" 0 7)] (sheetsOf ".//p" 0 7)).value
        = [⟨.ofString "p/a.css", 7⟩]
      ∧ ∀ o ∈ requests [.resolve (sheetsOf "./p" 0 7), .resolve (sheetsOf ".//p" 0 7)],
        Resolution.files o.tree ["*.css".toList] (.ofString ".//p") = .ok [] := by
  decide +kernel

end ClassLint.ResolutionCache
