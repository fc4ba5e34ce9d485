/-
  ClassLint.Proofs.Resolution.Requests

  Runs of a cache of resolved files.  A request comes at a moment, with the files as
  they stand then.  It is for no pattern, or it is answered by the entry of its pair of
  patterns and directory, or it resolves the patterns and replaces that entry; of other
  pairs it changes nothing.

  Between two runs that differ in requests for other pairs alone, the answers to the
  requests for a pair have the same files, and two of them are one instance in the one
  run exactly if they are in the other.
-/

import ClassLint.Resolution.Cache
import Mathlib.Data.List.Basic

namespace ClassLint.ResolutionCache

/-! ## Requests -/

/-- A request for the files of some patterns at a moment: the time in milliseconds, and the
    files as they stand. -/
structure Request where
  now : Nat
  tree : FileTree
  patterns : List Text
  cwd : Path

/-- The files that the patterns of a request stand for at its moment; none if they cannot be
    resolved. -/
def Request.files (r : Request) : List ResolvedFile :=
  (Resolution.files r.tree r.patterns r.cwd).toOption.getD []

/-- The request is for this pair of patterns and directory, however that is spelled. -/
def Request.isFor (patterns : List Text) (cwd : Path) (r : Request) : Bool :=
  r.patterns == patterns && r.cwd.same cwd

theorem Request.files_eq (r : Request) : filesNow r.tree r.patterns r.cwd = r.files := by
  unfold filesNow files
  cases Resolution.files r.tree r.patterns r.cwd <;> rfl

/-- A step of a run. -/
inductive Step where
  | resolve (r : Request)
  | clear

/-- The entry of a pair. -/
def held? (cache : ResolutionCache) (patterns : List Text) (cwd : Path) :
    Option CachedResolution :=
  cache.entries.find? (ResolutionCache.isFor patterns cwd)

variable {cache : ResolutionCache} {r : Request} {patterns : List Text} {cwd : Path}

/-- The answer to a request, and the cache afterwards. -/
def answer (cache : ResolutionCache) (r : Request) :
    Shared (List ResolvedFile) × ResolutionCache :=
  cache.resolve r.now r.tree r.patterns r.cwd

/-- The cache after a step. -/
def next (cache : ResolutionCache) : Step → ResolutionCache
  | .resolve r => (cache.answer r).2
  | .clear => cache.clear

/-- The cache after several steps. -/
def after (cache : ResolutionCache) (steps : List Step) : ResolutionCache := steps.foldl next cache

/-- The requests among several steps, each with its answer. -/
def answers : ResolutionCache → List Step → List (Request × Shared (List ResolvedFile))
  | _, [] => []
  | cache, .resolve r :: rest => (r, (cache.answer r).1) :: answers (cache.answer r).2 rest
  | cache, .clear :: rest => answers cache.clear rest

theorem after_append (cache : ResolutionCache) (a b : List Step) :
    cache.after (a ++ b) = (cache.after a).after b := List.foldl_append

theorem answers_append (cache : ResolutionCache) (a b : List Step) :
    cache.answers (a ++ b) = cache.answers a ++ (cache.after a).answers b := by
  induction a generalizing cache with
  | nil => rfl
  | cons step rest ih =>
    cases step with
    | resolve r => exact congrArg (_ :: ·) (ih _)
    | clear => exact ih _

/-! ## One request -/

theorem isFor_eq_of_isFor (h : r.isFor patterns cwd = true) (e : CachedResolution) :
    ResolutionCache.isFor r.patterns r.cwd e = ResolutionCache.isFor patterns cwd e := by
  simp only [Request.isFor, Bool.and_eq_true, beq_iff_eq, Path.same] at h
  simp only [ResolutionCache.isFor, Path.same, h.1, h.2]

theorem held?_of_isFor (h : r.isFor patterns cwd = true) (cache : ResolutionCache) :
    cache.held? r.patterns r.cwd = cache.held? patterns cwd := by
  unfold held?
  rw [funext fun e => isFor_eq_of_isFor h e]

theorem isFor_self (r : Request) : r.isFor r.patterns r.cwd = true := by
  simp [Request.isFor, Path.same]

/-- All that a request can do: it is for no pattern and remembers nothing; the entry of its
    pair is young enough, and nothing changes; or it resolves its patterns under a new
    number, and what it gives becomes the entry of its pair. -/
theorem answer_cases (cache : ResolutionCache) (r : Request) :
    (r.patterns = []
        ∧ cache.answer r = (⟨cache.made, []⟩, { cache with made := cache.made + 1 }))
      ∨ (r.patterns ≠ [] ∧ ∃ e, cache.held? r.patterns r.cwd = some e
        ∧ r.now - e.resolvedAt < cache.lifetime ∧ cache.answer r = (e.files, cache))
      ∨ (r.patterns ≠ []
        ∧ (∀ e, cache.held? r.patterns r.cwd = some e → cache.lifetime ≤ r.now - e.resolvedAt)
        ∧ cache.answer r = (⟨cache.made, r.files⟩,
          { lifetime := cache.lifetime
            entries := ⟨r.patterns, r.cwd, r.now, ⟨cache.made, r.files⟩⟩
              :: cache.entries.filter fun e => !ResolutionCache.isFor r.patterns r.cwd e
            made := cache.made + 1 })) := by
  unfold answer resolve
  by_cases hempty : r.patterns = []
  · refine Or.inl ⟨hempty, ?_⟩
    rw [hempty]
    rfl
  · refine Or.inr ?_
    have hnot : ¬ r.patterns.isEmpty = true := fun h => hempty (List.isEmpty_iff.mp h)
    rw [if_neg hnot]
    by_cases hhit : ∃ e, cache.held? r.patterns r.cwd = some e
        ∧ r.now - e.resolvedAt < cache.lifetime
    · obtain ⟨e, hentry, hyoung⟩ := hhit
      have hfound : cache.entries.find? (ResolutionCache.isFor r.patterns r.cwd) = some e := hentry
      have hlookup : cache.lookup? r.now r.patterns r.cwd = some e.files := by
        unfold lookup?
        rw [hfound]
        exact if_pos hyoung
      exact Or.inl ⟨hempty, e, hentry, hyoung, by rw [hlookup]⟩
    · have hold : ∀ e, cache.held? r.patterns r.cwd = some e →
          cache.lifetime ≤ r.now - e.resolvedAt := fun e hentry =>
        Nat.not_lt.mp fun hyoung => hhit ⟨e, hentry, hyoung⟩
      -- an entry that is too old is as good as none
      have hlookup : cache.lookup? r.now r.patterns r.cwd = none := by
        unfold lookup?
        split
        · next e hentry => exact if_neg (Nat.not_lt.mpr (hold e hentry))
        · rfl
      refine Or.inr ⟨hempty, hold, ?_⟩
      rw [hlookup, ← r.files_eq]
      rfl

theorem lifetime_answer (cache : ResolutionCache) (r : Request) :
    (cache.answer r).2.lifetime = cache.lifetime := by
  rcases cache.answer_cases r with ⟨-, h⟩ | ⟨-, e, -, -, h⟩ | ⟨-, -, h⟩ <;> rw [h]

theorem lifetime_after (cache : ResolutionCache) (steps : List Step) :
    (cache.after steps).lifetime = cache.lifetime := by
  induction steps generalizing cache with
  | nil => rfl
  | cons step rest ih =>
    refine (ih _).trans ?_
    cases step with
    | resolve r => exact cache.lifetime_answer r
    | clear => rfl

theorem made_le_made_answer (cache : ResolutionCache) (r : Request) :
    cache.made ≤ (cache.answer r).2.made := by
  rcases cache.answer_cases r with ⟨-, h⟩ | ⟨-, e, -, -, h⟩ | ⟨-, -, h⟩ <;> simp [h]

/-- A request for no pattern gives no file and remembers nothing. -/
theorem answer_of_nil (h : r.patterns = []) :
    (cache.answer r).1.value = [] ∧ (cache.answer r).2.entries = cache.entries := by
  rcases cache.answer_cases r with ⟨-, heq⟩ | ⟨hne, -⟩ | ⟨hne, -⟩
  · rw [heq]
    exact ⟨rfl, rfl⟩
  · exact absurd h hne
  · exact absurd h hne

/-- A request keeps the entries of other pairs. -/
theorem held?_answer_of_other (h : r.isFor patterns cwd = false) :
    (cache.answer r).2.held? patterns cwd = cache.held? patterns cwd := by
  rcases cache.answer_cases r with ⟨-, heq⟩ | ⟨-, e, -, -, heq⟩ | ⟨-, -, heq⟩
  · rw [heq]
    rfl
  · rw [heq]
  · rw [heq]
    unfold held?
    have hnew : ¬ ResolutionCache.isFor patterns cwd
        ⟨r.patterns, r.cwd, r.now, ⟨cache.made, r.files⟩⟩ = true := by
      intro hnew
      exact Bool.false_ne_true (h.symm.trans hnew)
    rw [List.find?_cons_of_neg hnew, List.find?_filter]
    congr 1
    funext e
    -- no entry is for both pairs
    cases hfor : ResolutionCache.isFor patterns cwd e with
    | false => simp
    | true =>
      have hnot : ResolutionCache.isFor r.patterns r.cwd e = false := by
        refine Bool.eq_false_iff.mpr fun hboth => ?_
        simp only [ResolutionCache.isFor, Bool.and_eq_true, beq_iff_eq, Path.same] at hfor hboth
        have hpair : r.isFor patterns cwd = true := by
          simp only [Request.isFor, Bool.and_eq_true, beq_iff_eq, Path.same]
          exact ⟨hboth.1.symm.trans hfor.1, hboth.2.symm.trans hfor.2⟩
        exact Bool.false_ne_true (h.symm.trans hpair)
      simp [hnot]

/-! ## Requests for other pairs -/

/-- The step is a reset or a request for the pair. -/
def Step.concerns (patterns : List Text) (cwd : Path) : Step → Bool
  | .resolve r => r.isFor patterns cwd
  | .clear => true

/-- The answers to the requests for a pair. -/
def answersFor (patterns : List Text) (cwd : Path) (cache : ResolutionCache) (steps : List Step) :
    List (Shared (List ResolvedFile)) :=
  ((cache.answers steps).filter fun p => p.1.isFor patterns cwd).map Prod.snd

theorem answersFor_cons_of_isFor (h : r.isFor patterns cwd = true) (cache : ResolutionCache)
    (rest : List Step) :
    cache.answersFor patterns cwd (.resolve r :: rest)
      = (cache.answer r).1 :: (cache.answer r).2.answersFor patterns cwd rest := by
  simp [answersFor, answers, h]

theorem answersFor_cons_of_other (h : r.isFor patterns cwd = false) (cache : ResolutionCache)
    (rest : List Step) :
    cache.answersFor patterns cwd (.resolve r :: rest)
      = (cache.answer r).2.answersFor patterns cwd rest := by
  simp [answersFor, answers, h]

/-- No two pairs of instances have one side in common and the other not. -/
def Matched (pairs : List (Shared (List ResolvedFile) × Shared (List ResolvedFile))) : Prop :=
  ∀ a ∈ pairs, ∀ b ∈ pairs, a.1 = b.1 ↔ a.2 = b.2

theorem Matched.mono {pairs pairs' : List (Shared (List ResolvedFile) × Shared (List ResolvedFile))}
    (h : Matched pairs') (hsub : pairs ⊆ pairs') : Matched pairs :=
  fun a ha b hb => h a (hsub ha) b (hsub hb)

/-- Answers of two runs, one by one: the same files, and the same ones of them are one
    instance. -/
def Alike (xs ys : List (Shared (List ResolvedFile))) : Prop :=
  xs.map (·.value) = ys.map (·.value) ∧ Matched (xs.zip ys)

section Related

variable {full only full' only' : ResolutionCache}
  {given given' : List (Shared (List ResolvedFile) × Shared (List ResolvedFile))}

/-- Two caches hold nothing for a pair, or entries of one time and the same files, whose
    instances were given together. -/
def HoldAlike (patterns : List Text) (cwd : Path) (full only : ResolutionCache)
    (given : List (Shared (List ResolvedFile) × Shared (List ResolvedFile))) : Prop :=
  (full.held? patterns cwd = none ∧ only.held? patterns cwd = none)
    ∨ ∃ e e', full.held? patterns cwd = some e ∧ only.held? patterns cwd = some e'
      ∧ e.resolvedAt = e'.resolvedAt ∧ e.files.value = e'.files.value
      ∧ (e.files, e'.files) ∈ given

/-- Two caches that hold the same for a pair, up to the numbers of the instances given so far. -/
structure Related (patterns : List Text) (cwd : Path) (full only : ResolutionCache)
    (given : List (Shared (List ResolvedFile) × Shared (List ResolvedFile))) : Prop where
  lifetime : full.lifetime = only.lifetime
  id_lt : ∀ a ∈ given, a.1.id < full.made ∧ a.2.id < only.made
  matched : Matched given
  entry : HoldAlike patterns cwd full only given

theorem HoldAlike.mono (h : HoldAlike patterns cwd full only given) (hsub : given ⊆ given') :
    HoldAlike patterns cwd full only given' :=
  h.imp_right fun ⟨e, e', he, he', hat, hvalue, hgiven⟩ =>
    ⟨e, e', he, he', hat, hvalue, hsub hgiven⟩

/-- What the one holds for the pair the other holds too. -/
theorem HoldAlike.of_held? {e : CachedResolution} (h : HoldAlike patterns cwd full only given)
    (he : full.held? patterns cwd = some e) :
    ∃ e', only.held? patterns cwd = some e' ∧ e.resolvedAt = e'.resolvedAt
      ∧ e.files.value = e'.files.value ∧ (e.files, e'.files) ∈ given := by
  rcases h with ⟨hnone, -⟩ | ⟨e₁, e', he₁, he', hrest⟩
  · rw [hnone] at he
    exact absurd he nofun
  · obtain rfl : e₁ = e := Option.some.inj (he₁.symm.trans he)
    exact ⟨e', he', hrest⟩

theorem HoldAlike.of_held?_only {e' : CachedResolution}
    (h : HoldAlike patterns cwd full only given) (he' : only.held? patterns cwd = some e') :
    ∃ e, full.held? patterns cwd = some e ∧ e.resolvedAt = e'.resolvedAt := by
  rcases h with ⟨-, hnone⟩ | ⟨e, e₁, he, he₁, hat, -⟩
  · rw [hnone] at he'
    exact absurd he' nofun
  · obtain rfl : e₁ = e' := Option.some.inj (he₁.symm.trans he')
    exact ⟨e, he, hat⟩

/-- New instances match nothing that was given before. -/
theorem Related.matched_new (h : Related patterns cwd full only given)
    (files files' : List ResolvedFile) :
    Matched ((⟨full.made, files⟩, ⟨only.made, files'⟩) :: given) := by
  have hnew : ∀ b ∈ given, (⟨full.made, files⟩ : Shared (List ResolvedFile)) ≠ b.1
      ∧ (⟨only.made, files'⟩ : Shared (List ResolvedFile)) ≠ b.2 := by
    intro b hb
    obtain ⟨hlt, hlt'⟩ := h.id_lt b hb
    exact ⟨fun heq => by rw [← heq] at hlt; exact Nat.lt_irrefl _ hlt,
      fun heq => by rw [← heq] at hlt'; exact Nat.lt_irrefl _ hlt'⟩
  intro a ha b hb
  rcases List.mem_cons.mp ha with rfl | ha
  · rcases List.mem_cons.mp hb with rfl | hb
    · exact iff_of_true rfl rfl
    · exact iff_of_false (hnew b hb).1 (hnew b hb).2
  · rcases List.mem_cons.mp hb with rfl | hb
    · exact iff_of_false (hnew a ha).1.symm (hnew a ha).2.symm
    · exact h.matched a ha b hb

/-- Both give a new instance. -/
theorem Related.grow (h : Related patterns cwd full only given) {files files' : List ResolvedFile}
    (hlifetime : full'.lifetime = only'.lifetime) (hmade : full'.made = full.made + 1)
    (hmade' : only'.made = only.made + 1)
    (hentry : HoldAlike patterns cwd full' only'
      ((⟨full.made, files⟩, ⟨only.made, files'⟩) :: given)) :
    Related patterns cwd full' only' ((⟨full.made, files⟩, ⟨only.made, files'⟩) :: given) where
  lifetime := hlifetime
  id_lt a ha := by
    rw [hmade, hmade']
    rcases List.mem_cons.mp ha with rfl | ha
    · exact ⟨Nat.lt_succ_self _, Nat.lt_succ_self _⟩
    · exact (h.id_lt a ha).imp Nat.lt_succ_of_lt Nat.lt_succ_of_lt
  matched := h.matched_new files files'
  entry := hentry

/-- Both give an instance that they gave together before. -/
theorem Related.repeated (h : Related patterns cwd full only given)
    {a : Shared (List ResolvedFile) × Shared (List ResolvedFile)} (ha : a ∈ given) :
    Related patterns cwd full only (a :: given) := by
  have hsub : a :: given ⊆ given := List.cons_subset.mpr ⟨ha, List.Subset.refl given⟩
  exact ⟨h.lifetime, fun b hb => h.id_lt b (hsub hb), h.matched.mono hsub,
    h.entry.mono (List.subset_cons_self a given)⟩

/-- A request for the pair gives the same files in both, and keeps them related. -/
theorem Related.answer (h : Related patterns cwd full only given)
    (hfor : r.isFor patterns cwd = true) :
    (full.answer r).1.value = (only.answer r).1.value
      ∧ Related patterns cwd (full.answer r).2 (only.answer r).2
        (((full.answer r).1, (only.answer r).1) :: given) := by
  have hfull := held?_of_isFor hfor full
  have honly := held?_of_isFor hfor only
  rcases full.answer_cases r with ⟨hnil, heq⟩ | ⟨hne, e, hentry, hyoung, heq⟩ | ⟨hne, hold, heq⟩
  · rcases only.answer_cases r with ⟨-, heq'⟩ | ⟨hne, -⟩ | ⟨hne, -⟩
    · rw [heq, heq']
      exact ⟨rfl, h.grow h.lifetime rfl rfl (h.entry.mono (List.subset_cons_self _ given))⟩
    · exact absurd hnil hne
    · exact absurd hnil hne
  · -- answered from the entry in the one, and from the matching entry in the other
    obtain ⟨e', he', hat, hvalue, hgiven⟩ := h.entry.of_held? (hfull.symm.trans hentry)
    rcases only.answer_cases r with ⟨hnil, -⟩ | ⟨-, e₁, hentry', -, heq'⟩ | ⟨-, hold, -⟩
    · exact absurd hnil hne
    · obtain rfl : e₁ = e' := Option.some.inj (hentry'.symm.trans (honly.trans he'))
      rw [heq, heq']
      exact ⟨hvalue, h.repeated hgiven⟩
    · have hold' := hold e' (honly.trans he')
      rw [← hat, ← h.lifetime] at hold'
      exact absurd hyoung (Nat.not_lt.mpr hold')
  · rcases only.answer_cases r with ⟨hnil, -⟩ | ⟨-, e', hentry', hyoung, -⟩ | ⟨-, -, heq'⟩
    · exact absurd hnil hne
    · obtain ⟨e, he, hat⟩ := h.entry.of_held?_only (honly.symm.trans hentry')
      have hold' := hold e (hfull.trans he)
      rw [hat, h.lifetime] at hold'
      exact absurd hyoung (Nat.not_lt.mpr hold')
    · -- resolved anew in both
      have hnew : ∀ files, ResolutionCache.isFor patterns cwd
          ⟨r.patterns, r.cwd, r.now, files⟩ = true := fun _ => hfor
      rw [heq, heq']
      exact ⟨rfl, h.grow h.lifetime rfl rfl (Or.inr ⟨_, _, List.find?_cons_of_pos (hnew _),
        List.find?_cons_of_pos (hnew _), rfl, rfl, List.mem_cons_self⟩)⟩

/-- Requests for other pairs leave caches related. -/
theorem Related.answer_other (h : Related patterns cwd full only given)
    (hother : r.isFor patterns cwd = false) :
    Related patterns cwd (full.answer r).2 only given where
  lifetime := (full.lifetime_answer r).trans h.lifetime
  id_lt a ha := (h.id_lt a ha).imp_left fun hlt => Nat.lt_of_lt_of_le hlt (full.made_le_made_answer r)
  matched := h.matched
  entry := by
    unfold HoldAlike
    rw [held?_answer_of_other hother]
    exact h.entry

theorem Related.clear (h : Related patterns cwd full only given) :
    Related patterns cwd full.clear only.clear given where
  lifetime := h.lifetime
  id_lt := h.id_lt
  matched := h.matched
  entry := Or.inl ⟨rfl, rfl⟩

/-- A run and the same run without the requests for other pairs: what was given before and
    what both give now matches. -/
theorem Related.answersFor (h : Related patterns cwd full only given) (steps : List Step) :
    (full.answersFor patterns cwd steps).map (·.value)
        = (only.answersFor patterns cwd (steps.filter (Step.concerns patterns cwd))).map (·.value)
      ∧ Matched ((full.answersFor patterns cwd steps).zip
          (only.answersFor patterns cwd (steps.filter (Step.concerns patterns cwd))) ++ given) := by
  induction steps generalizing full only given with
  | nil => exact ⟨rfl, h.matched⟩
  | cons step rest ih =>
    cases step with
    | clear => exact ih h.clear
    | resolve r =>
      cases hfor : r.isFor patterns cwd with
      | true =>
        obtain ⟨hvalue, hnext⟩ := h.answer hfor
        obtain ⟨hvalues, hmatched⟩ := ih hnext
        have hkept : (Step.resolve r :: rest).filter (Step.concerns patterns cwd)
            = .resolve r :: rest.filter (Step.concerns patterns cwd) :=
          List.filter_cons_of_pos hfor
        rw [hkept, answersFor_cons_of_isFor hfor, answersFor_cons_of_isFor hfor]
        refine ⟨by rw [List.map_cons, List.map_cons, hvalue, hvalues], ?_⟩
        -- what is given now stands in front of all, and in front of what was given before
        exact hmatched.mono List.perm_middle.symm.subset
      | false =>
        have hkept : (Step.resolve r :: rest).filter (Step.concerns patterns cwd)
            = rest.filter (Step.concerns patterns cwd) :=
          List.filter_cons_of_neg (by simp [Step.concerns, hfor])
        rw [hkept, answersFor_cons_of_other hfor]
        exact ih (h.answer_other hfor)

end Related

/-- What a pair is answered does not depend on the requests for other pairs. -/
theorem alike_answersFor (lifetime : Nat) (patterns : List Text) (cwd : Path)
    (steps : List Step) :
    Alike ((empty lifetime).answersFor patterns cwd steps)
      ((empty lifetime).answersFor patterns cwd (steps.filter (Step.concerns patterns cwd))) := by
  have hstart : Related patterns cwd (empty lifetime) (empty lifetime) [] :=
    ⟨rfl, fun _ ha => absurd ha List.not_mem_nil, fun _ ha => absurd ha List.not_mem_nil,
      Or.inl ⟨rfl, rfl⟩⟩
  obtain ⟨hvalues, hmatched⟩ := hstart.answersFor steps
  rw [List.append_nil] at hmatched
  exact ⟨hvalues, hmatched⟩

end ClassLint.ResolutionCache
