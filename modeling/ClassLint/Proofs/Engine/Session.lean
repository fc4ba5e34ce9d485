/-
  ClassLint.Proofs.Engine.Session

  Runs of an engine while files change.  A step of a run changes a file, calls
  the engine or resets it; the answers of a run and the demands behind them are
  listed in the order of the calls.  An answer is a function of the registry
  that the call is given, for what is remembered about tokens does not show.
-/

import ClassLint.Proofs.Engine.Demand
import ClassLint.Proofs.Token.Memo

namespace ClassLint

/-! ## Changes of files -/

/-- A change of a file or directory. -/
inductive FileChange where
  | write (p : Path) (content : ByteArray) (modified : Int)
  | makeDirectory (p : Path)
  | rename (source target : Path)
  | remove (p : Path)
  | touch (p : Path) (modified : Int)

/-- The tree after a change.  A change that fails leaves it as it was. -/
def FileTree.apply (t : FileTree) (change : FileChange) : FileTree :=
  let changed := match change with
    | .write p content modified => t.write p content modified
    | .makeDirectory p => t.makeDirectory p
    | .rename source target => t.rename source target
    | .remove p => t.remove p
    | .touch p modified => t.touch p modified
  changed.toOption.getD t

/-! ## Calls -/

/-- A call of an engine. -/
inductive Call where
  | registry (c : Config)
  | checkTokens (c : Config) (tokens : OrderedSet Text)
  | checkText (c : Config) (value : Text)
  | checkExpression (c : Config) (mode : ExtractMode) (x : Expression)

/-- The answer to a call. -/
inductive Answer where
  | registry (r : Registry)
  | findings (found : List Finding)

namespace Call

/-- The configuration that a call is made for. -/
def config : Call → Config
  | registry c | checkTokens c _ | checkText c _ | checkExpression c .. => c

/-- The tokens that a call checks; none if it is not a check. -/
def tokens? : Call → Option (OrderedSet Text)
  | registry _ => none
  | checkTokens _ tokens => some tokens
  | checkText _ value => some (Candidates.ofText value)
  | checkExpression _ mode x => some (Candidates.ofExpression mode x)

/-- The call demands a registry: a check of no tokens does not. -/
def demands (call : Call) : Bool := !call.tokens?.any (·.isEmpty)

/-- The answer that follows from the registry of the configuration. -/
def answerFrom (call : Call) (r : Registry) : Answer :=
  match call.tokens? with
  | none => .registry r
  | some tokens => .findings (r.checkAll r.ignore tokens.toList)

end Call

/-- The answer without the key of a registry. -/
def Answer.contents : Answer → Answer
  | registry r => registry r.contents
  | findings found => findings found

theorem Call.contents_answerFrom (call : Call) (r : Registry) :
    (call.answerFrom r).contents = (call.answerFrom r.contents).contents := by
  unfold answerFrom
  cases call.tokens? <;> rfl

/-- Only the answer of a call for a registry shows the key. -/
theorem Call.answerFrom_eq_iff (call : Call) {r r' : Registry} (h : r.contents = r'.contents) :
    call.answerFrom r = call.answerFrom r' ↔ (call.tokens? = none → r.key? = r'.key?) := by
  unfold answerFrom
  cases htokens : call.tokens? with
  | none =>
    simp only [Answer.registry.injEq, true_implies]
    exact ⟨fun heq => by rw [heq], Registry.eq_of_contents_eq h⟩
  | some tokens =>
    -- findings follow from the contents alone
    have hignore : r.contents.ignore = r'.contents.ignore := by rw [h]
    have hfound : r.checkAll r.ignore tokens.toList = r'.checkAll r'.ignore tokens.toList := by
      rw [← r.checkAll_contents, ← r'.checkAll_contents, h]
      exact congrArg (fun ignore => r'.contents.checkAll ignore tokens.toList) hignore
    simp [hfound]

/-- The answer to a call, and the engine afterwards. -/
def Engine.answer (e : Engine) (m : Moment) : Call → Answer × Engine
  | .registry c => let (r, e) := e.registry m c; (.registry r.value, e)
  | .checkTokens c tokens => let (found, e) := e.checkTokens m c tokens; (.findings found, e)
  | .checkText c value => let (found, e) := e.checkText m c value; (.findings found, e)
  | .checkExpression c mode x =>
    let (found, e) := e.checkExpression m c mode x; (.findings found, e)

namespace Engine

variable {e : Engine} {m : Moment} {call : Call}

theorem answer_of_tokens? {tokens : OrderedSet Text} (h : call.tokens? = some tokens) :
    e.answer m call = (.findings (e.checkTokens m call.config tokens).1,
      (e.checkTokens m call.config tokens).2) := by
  cases call with
  | registry c => exact absurd h (by simp [Call.tokens?])
  | checkTokens c all => cases h; rfl
  | checkText c value => cases h; rfl
  | checkExpression c mode x => cases h; rfl

/-- A call that demands no registry finds nothing and changes nothing. -/
theorem answer_of_not_demands (h : call.demands = false) :
    e.answer m call = (.findings [], e) := by
  cases htokens : call.tokens? with
  | none => exact absurd h (by simp [Call.demands, htokens])
  | some tokens =>
    have hempty : tokens.isEmpty = true := by simpa [Call.demands, htokens] using h
    rw [answer_of_tokens? htokens]
    simp [checkTokens, hempty]

/-- Any other call answers from the registry of its configuration; beside what
    that demand leaves behind, readings of tokens are remembered. -/
theorem answer_of_demands (h : call.demands = true) (hright : e.tokens.Right) :
    (e.answer m call).1 = call.answerFrom (Demand.mk e m call.config).registry
      ∧ ∃ memo : TokenMemo, memo.Right
        ∧ (e.answer m call).2 = { (Demand.mk e m call.config).after with tokens := memo } := by
  cases htokens : call.tokens? with
  | none =>
    cases call with
    | registry c => exact ⟨rfl, e.tokens, hright, rfl⟩
    | checkTokens | checkText | checkExpression => exact absurd htokens (by simp [Call.tokens?])
  | some tokens =>
    have hempty : tokens.isEmpty = false := by simpa [Call.demands, htokens] using h
    have hfound := filterMap_readings hright (Demand.mk e m call.config).registry
      (Demand.mk e m call.config).registry.ignore tokens.toList
    rw [answer_of_tokens? htokens]
    unfold Call.answerFrom
    rw [htokens]
    simp only [checkTokens, hempty, Bool.false_eq_true, if_false]
    exact ⟨congrArg Answer.findings hfound, _, (readings_eq hright tokens.toList).2, rfl⟩

end Engine

/-! ## Sessions -/

/-- An engine and the files that it works on. -/
structure Session where
  engine : Engine
  tree : FileTree

/-- A step of a session. -/
inductive Session.Step where
  | change (change : FileChange)
  /-- A call, at a time in milliseconds. -/
  | call (now : Nat) (call : Call)
  | clear

/-- A configuration in some directory, whose catalogue has the classes of layer
    files and which has nothing else. -/
def Config.layered (cwd : String) : Config where
  catalogue := .settings { includeGenerated := true }
  cwd := .ofString cwd

/-- A configuration of an allow list with a single entry. -/
def Config.listing (name : String) : Config where
  allowlist := [name.toList]
  cwd := .ofString "."

namespace Session

/-- The session after a step. -/
def next (s : Session) : Step → Session
  | .change change => { s with tree := s.tree.apply change }
  | .call now call => { s with engine := (s.engine.answer ⟨s.tree, now⟩ call).2 }
  | .clear => { s with engine := s.engine.clear }

/-- The session after several steps. -/
def after (s : Session) (steps : List Step) : Session := steps.foldl next s

/-- The answers to the calls among several steps. -/
def answers : Session → List Step → List Answer
  | _, [] => []
  | s, .call now call :: rest =>
    (s.engine.answer ⟨s.tree, now⟩ call).1 :: answers (s.next (.call now call)) rest
  | s, step :: rest => answers (s.next step) rest

/-- The demands behind the calls among several steps. -/
def demands : Session → List Step → List Demand
  | _, [] => []
  | s, .call now call :: rest =>
    (if call.demands then [⟨s.engine, ⟨s.tree, now⟩, call.config⟩] else [])
      ++ demands (s.next (.call now call)) rest
  | s, step :: rest => demands (s.next step) rest

/-- A call that demands no registry changes nothing. -/
theorem next_of_not_demands (s : Session) (now : Nat) {call : Call}
    (h : call.demands = false) : s.next (.call now call) = s := by
  simp only [next, Engine.answer_of_not_demands h]

/-- Any other call leaves behind what its demand does, and readings of tokens. -/
theorem next_of_demands (s : Session) (now : Nat) {call : Call} (h : call.demands = true)
    (hright : s.engine.tokens.Right) :
    ∃ memo : TokenMemo, memo.Right ∧ s.next (.call now call)
      = ⟨{ (Demand.mk s.engine ⟨s.tree, now⟩ call.config).after with tokens := memo }, s.tree⟩ := by
  obtain ⟨-, memo, hmemo, hafter⟩ := Engine.answer_of_demands (m := ⟨s.tree, now⟩) h hright
  exact ⟨memo, hmemo, by simp only [next, hafter]⟩

theorem answers_cons (s : Session) (step : Step) (rest : List Step) :
    s.answers (step :: rest) = s.answers [step] ++ (s.next step).answers rest := by
  cases step <;> rfl

theorem after_cons (s : Session) (step : Step) (rest : List Step) :
    s.after (step :: rest) = (s.next step).after rest := rfl

theorem demands_cons (s : Session) (step : Step) (rest : List Step) :
    s.demands (step :: rest) = s.demands [step] ++ (s.next step).demands rest := by
  cases step <;> simp [demands]

theorem demands_append (s : Session) (a b : List Step) :
    s.demands (a ++ b) = s.demands a ++ (s.after a).demands b := by
  induction a generalizing s with
  | nil => rfl
  | cons step rest ih =>
    rw [List.cons_append, demands_cons, demands_cons s step rest, ih, after_cons,
      List.append_assoc]

theorem demands_call (s : Session) (now : Nat) {call : Call} (h : call.demands = true) :
    s.demands [.call now call] = [⟨s.engine, ⟨s.tree, now⟩, call.config⟩] := by
  simp [demands, h]

/-- What a function tells of the demands among several steps. -/
def trace {α : Type} (s : Session) (f : Demand → α) (steps : List Step) : List α :=
  (s.demands steps).map f

theorem trace_cons {α : Type} (s : Session) (f : Demand → α) (step : Step) (rest : List Step) :
    s.trace f (step :: rest) = s.trace f [step] ++ (s.next step).trace f rest := by
  rw [trace, demands_cons, List.map_append]
  rfl

theorem trace_of_not_demands {α : Type} (s : Session) (f : Demand → α) (now : Nat) {call : Call}
    (h : call.demands = false) : s.trace f [.call now call] = [] := by
  simp [trace, demands, h]

theorem trace_of_demands {α : Type} (s : Session) (f : Demand → α) (now : Nat) {call : Call}
    (h : call.demands = true) :
    s.trace f [.call now call] = [f ⟨s.engine, ⟨s.tree, now⟩, call.config⟩] := by
  rw [trace, demands_call s now h, List.map_singleton]

/-- How many registries a step demands does not depend on the session. -/
theorem length_trace_step {α : Type} (s s' : Session) (f : Demand → α) (step : Step) :
    (s.trace f [step]).length = (s'.trace f [step]).length := by
  cases step with
  | change | clear => rfl
  | call now call =>
    cases hdemands : call.demands with
    | false => rw [trace_of_not_demands s f now hdemands, trace_of_not_demands s' f now hdemands]
    | true =>
      rw [trace_of_demands s f now hdemands, trace_of_demands s' f now hdemands]
      rfl

/-- Sessions have the same trace if they have the same at the first step and the
    same from there on. -/
theorem trace_cons_inj {α : Type} {s s' : Session} {f : Demand → α} {step : Step}
    {rest : List Step} :
    s.trace f (step :: rest) = s'.trace f (step :: rest) ↔
      s.trace f [step] = s'.trace f [step]
        ∧ (s.next step).trace f rest = (s'.next step).trace f rest := by
  rw [trace_cons s, trace_cons s']
  constructor
  · intro h
    exact List.append_inj h (length_trace_step s s' f step)
  · rintro ⟨hstep, hrest⟩
    rw [hstep, hrest]

/-- A demand is made of the session after some of the steps. -/
theorem eq_of_mem_demands {s : Session} {steps : List Step} {d : Demand}
    (h : d ∈ s.demands steps) :
    ∃ before rest, steps = before ++ rest ∧ d.engine = (s.after before).engine
      ∧ d.moment.tree = (s.after before).tree := by
  induction steps generalizing s with
  | nil => exact absurd h (by simp [demands])
  | cons step rest ih =>
    rw [demands_cons, List.mem_append] at h
    rcases h with h | h
    · -- made in the first step, before which nothing has happened
      cases step with
      | change | clear => exact absurd h (by simp [demands])
      | call now call =>
        cases hdemands : call.demands with
        | false => exact absurd h (by simp [demands, hdemands])
        | true =>
          rw [demands_call s now hdemands, List.mem_singleton] at h
          exact ⟨[], _, rfl, by rw [h]; rfl, by rw [h]; rfl⟩
    · obtain ⟨before, rest, rfl, hengine, htree⟩ := ih h
      exact ⟨step :: before, rest, rfl, hengine, htree⟩

/-- What every step keeps holds after a run. -/
theorem after_induction {P : Engine → Prop} (hright : ∀ e, P e → e.tokens.Right)
    (htokens : ∀ e memo, P e → memo.Right → P { e with tokens := memo })
    (hclear : ∀ e, P e → P e.clear)
    {s : Session} (hs : P s.engine) (steps : List Step)
    (hdemand : ∀ d ∈ s.demands steps, P d.engine → P d.after) : P (s.after steps).engine := by
  induction steps generalizing s with
  | nil => exact hs
  | cons step rest ih =>
    rw [after_cons]
    have hrest : ∀ d ∈ (s.next step).demands rest, P d.engine → P d.after := by
      intro d hd
      refine hdemand d ?_
      rw [demands_cons]
      exact List.mem_append_right _ hd
    refine ih ?_ hrest
    -- the induction hands `P` on; what is left is a single step
    cases step with
    | change change => exact hs
    | clear => exact hclear _ hs
    | call now call =>
      cases hdemands : call.demands with
      | false =>
        rw [next_of_not_demands s now hdemands]
        exact hs
      | true =>
        obtain ⟨memo, hmemo, hnext⟩ := next_of_demands s now hdemands (hright _ hs)
        rw [hnext]
        refine htokens _ _ (hdemand _ ?_ hs) hmemo
        rw [demands_cons, demands_call s now hdemands]
        exact List.mem_append_left _ List.mem_cons_self

end Session

end ClassLint
