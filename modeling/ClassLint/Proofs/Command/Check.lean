/-
  ClassLint.Proofs.Command.Check

  What a check writes about several attributes: for each of them what a check of
  it alone writes, with its own number.  The two forms of the output are about
  the same diagnostics, one a line of text or an item of an array.
-/

import ClassLint.Command.Run
import ClassLint.Proofs.Engine.Steady
import ClassLint.Proofs.Finding.Words
import ClassLint.Proofs.Json.Printed

namespace ClassLint

/-! ## Diagnostics -/

/-- What a new engine finds in an attribute. -/
def Attribute.found (t : FileTree) (c : Config) (mode : ExtractMode) (x : Attribute) :
    List Finding :=
  (Engine.standard.checkTokens ⟨t, 0⟩ c (x.candidates mode)).1

namespace Attribute

variable {t : FileTree} {c : Config} {mode : ExtractMode}

/-- The findings of an attribute follow from the registry of the configuration. -/
theorem found_eq (x : Attribute) :
    x.found t c mode = (Demand.first t c).built.checkAll (Demand.first t c).built.ignore
      (x.candidates mode).toList := by
  have hanswer := (Engine.Steady.answer (m := ⟨t, 0⟩) (Engine.steady_standard t c)
    (.checkTokens c (x.candidates mode)) rfl).1
  exact Answer.findings.inj hanswer

/-- There is no blank in the names of what is found. -/
theorem not_isBlank_of_found {x : Attribute} {f : Finding} (hf : f ∈ x.found t c mode)
    {name : Text} (hname : name ∈ f.names) {d : Char} (hd : d ∈ name) :
    Text.isBlank d = false := by
  rw [found_eq] at hf
  cases x with
  | text value => exact Candidates.not_isBlank_of_checkAll hf hname hd
  | expression e => exact Candidates.not_isBlank_of_checkAll hf hname hd

end Attribute

/-- The diagnostics of attributes whose numbers begin with `number`. -/
theorem checkAttributes_of_steady {m : Moment} {c : Config} {e : Engine}
    (h : e.Steady m.tree c) (mode : ExtractMode) (number : Nat) (attributes : List Attribute) :
    checkAttributes m c mode e number attributes
      = (attributes.zipIdx number).flatMap fun p =>
        (p.1.found m.tree c mode).map (⟨·, p.2⟩) := by
  induction attributes generalizing e number with
  | nil => rfl
  | cons x rest ih =>
    obtain ⟨hanswer, hsteady⟩ := h.answer (.checkTokens c (x.candidates mode)) rfl
    have hfound : (e.checkTokens m c (x.candidates mode)).1 = x.found m.tree c mode := by
      rw [Attribute.found_eq]
      exact Answer.findings.inj hanswer
    have hafter : (e.checkTokens m c (x.candidates mode)).2.Steady m.tree c := hsteady
    rw [checkAttributes, List.zipIdx_cons, List.flatMap_cons]
    simp only [hfound, ih hafter]

/-! ## Lines of text -/

namespace Diagnostic

/-- The line about a diagnostic, without its end. -/
def lineText (d : Diagnostic Nat) : Text := d.line.dropLast

theorem line_eq (d : Diagnostic Nat) : d.line = d.lineText ++ ['\n'] := by
  rw [lineText, line, List.append_cons _ ')' ['\n'], List.dropLast_concat]

theorem lineText_eq (d : Diagnostic Nat) :
    d.lineText = '[' :: Text.ofNat d.location ++ "] ".toList ++ d.finding.message ++ " (".toList
      ++ d.finding.kind ++ [')'] := by
  rw [lineText, line, List.append_cons _ ')' ['\n'], List.dropLast_concat]

end Diagnostic

/-- There is a line feed in the wording of a finding only if there is a blank in a name. -/
theorem Finding.newline_not_mem_message {f : Finding}
    (h : ∀ name ∈ f.names, ∀ c ∈ name, Text.isBlank c = false) : '\n' ∉ f.message := by
  have hname : ∀ name ∈ f.names, '\n' ∉ name := by
    intro name hname hmem
    have hblank : Text.isBlank '\n' = true := by decide
    rw [h name hname _ hmem] at hblank
    exact Bool.noConfusion hblank
  cases f with
  | invalidClass name =>
    have hpieces : '\n' ∉ "Class '".toList ∧ '\n' ∉ "' is not defined".toList := by decide +kernel
    have hmentioned := hname name List.mem_cons_self
    exact List.not_mem_append (List.not_mem_append hpieces.1 hmentioned) hpieces.2
  | invalidVariant token variant =>
    have hpieces : '\n' ∉ "Variant '".toList ∧ '\n' ∉ "' in '".toList
        ∧ '\n' ∉ "' is not valid".toList := by decide +kernel
    have htoken := hname token List.mem_cons_self
    have hvariant := hname variant (List.mem_cons_of_mem _ List.mem_cons_self)
    exact List.not_mem_append (List.not_mem_append (List.not_mem_append
      (List.not_mem_append hpieces.1 hvariant) hpieces.2.1) htoken) hpieces.2.2

theorem Diagnostic.newline_not_mem_lineText {d : Diagnostic Nat}
    (h : ∀ name ∈ d.finding.names, ∀ c ∈ name, Text.isBlank c = false) : '\n' ∉ d.lineText := by
  have hnumber : '\n' ∉ Text.ofNat d.location := by
    intro hmem
    exact absurd (Json.isDigit_of_mem_ofNat hmem) (by decide)
  have hkind : '\n' ∉ d.finding.kind := by
    have hkinds : '\n' ∉ "invalidClassName".toList ∧ '\n' ∉ "invalidVariant".toList := by
      decide +kernel
    cases d.finding with
    | invalidClass => exact hkinds.1
    | invalidVariant => exact hkinds.2
  have hpieces : '\n' ∉ "] ".toList ∧ '\n' ∉ " (".toList ∧ '\n' ∉ [')'] := by decide +kernel
  have hopen : '\n' ∉ '[' :: Text.ofNat d.location :=
    List.not_mem_cons_of_ne_of_not_mem (by decide) hnumber
  rw [lineText_eq]
  exact List.not_mem_append (List.not_mem_append (List.not_mem_append (List.not_mem_append
    (List.not_mem_append hopen hpieces.1) (Finding.newline_not_mem_message h)) hpieces.2.1)
    hkind) hpieces.2.2

/-! ## Items of an array -/

theorem Diagnostic.isExact_toJson {d : Diagnostic Nat} (depth : Nat)
    (h : d.location < twoTo 64) : d.numbered.toJson.isExact (depth + 1) = true := by
  have hlocation : (Json.ofNat d.location).isExact depth = true := by
    simp only [Json.ofNat, Json.isExact, Bool.and_eq_true, decide_eq_true_eq]
    have hpositive : 0 < twoTo 63 := by decide
    omega
  have htext : ∀ t, (Json.text t).isExact depth = true := fun _ => rfl
  unfold Diagnostic.toJson Diagnostic.numbered
  cases d.finding with
  | invalidClass name =>
    refine Json.isExact_record ?_
    simp only [List.forall_mem_cons, List.not_mem_nil, false_imp_iff, implies_true, and_true]
    exact ⟨htext _, htext _, hlocation⟩
  | invalidVariant token variant =>
    refine Json.isExact_record ?_
    simp only [List.forall_mem_cons, List.not_mem_nil, false_imp_iff, implies_true, and_true]
    exact ⟨htext _, htext _, htext _, hlocation⟩

/-! ## Runs -/

section

variable {a : CheckArguments} {m : Moment} {input : Text} {config : Config}
  {attributes : List Attribute}

/-- The diagnostics of several attributes, each with the number of its attribute. -/
def diagnosticsOf (t : FileTree) (c : Config) (mode : ExtractMode) (attributes : List Attribute) :
    List (Diagnostic Nat) :=
  attributes.zipIdx.flatMap fun p => (p.1.found t c mode).map (⟨·, p.2⟩)

theorem diagnosticsOf_singleton (t : FileTree) (c : Config) (mode : ExtractMode) (x : Attribute) :
    diagnosticsOf t c mode [x] = (x.found t c mode).map (⟨·, 0⟩) := by
  rw [diagnosticsOf, List.zipIdx_singleton, List.flatMap_singleton]

/-- A diagnostic is about what is found in some attribute, and its location is the
    number of that attribute. -/
theorem mem_diagnosticsOf {t : FileTree} {c : Config} {mode : ExtractMode} {d : Diagnostic Nat}
    (h : d ∈ diagnosticsOf t c mode attributes) :
    d.location < attributes.length ∧ ∃ x : Attribute, d.finding ∈ x.found t c mode := by
  obtain ⟨⟨x, number⟩, hx, hd⟩ := List.mem_flatMap.mp h
  obtain ⟨f, hf, rfl⟩ := List.mem_map.mp hd
  obtain ⟨-, hnumber, -⟩ := List.mem_zipIdx hx
  exact ⟨by simpa using hnumber, x, hf⟩

theorem runCheck_eq_ok (hconfig : a.source.toConfig m.tree = .ok config)
    (hattributes : a.attributes input = .ok attributes) :
    runCheck a m input = .ok (diagnosticsOf m.tree config a.mode attributes,
      a.format.render (diagnosticsOf m.tree config a.mode attributes)) := by
  have hdiagnostics := checkAttributes_of_steady (Engine.steady_standard m.tree config) a.mode 0
    attributes
  rw [diagnosticsOf, ← hdiagnostics]
  simp only [runCheck, hconfig, hattributes, Except.mapError]
  rfl

/-- Every diagnostic is a line of the text. -/
theorem split_render_text (t : FileTree) (c : Config) (mode : ExtractMode) :
    Text.split (· == '\n') (OutputFormat.text.render (diagnosticsOf t c mode attributes))
      = (diagnosticsOf t c mode attributes).map Diagnostic.lineText ++ [[]] := by
  have hlines : ∀ line ∈ (diagnosticsOf t c mode attributes).map Diagnostic.lineText,
      ∀ c ∈ line, (c == '\n') = false := by
    intro line hline c hc
    obtain ⟨d, hd, rfl⟩ := List.mem_map.mp hline
    obtain ⟨-, x, hfound⟩ := mem_diagnosticsOf hd
    have hnewline := Diagnostic.newline_not_mem_lineText
      fun name hname c hc => Attribute.not_isBlank_of_found hfound hname hc
    rw [beq_eq_false_iff_ne]
    exact fun heq => hnewline (heq ▸ hc)
  have hrender : OutputFormat.text.render (diagnosticsOf t c mode attributes)
      = ((diagnosticsOf t c mode attributes).map Diagnostic.lineText).flatMap
        fun line => line ++ ['\n'] := by
    rw [OutputFormat.render, List.flatMap_map]
    exact congrArg (List.flatMap · _) (funext Diagnostic.line_eq)
  rw [hrender]
  exact Text.split_flatMap (by decide) hlines

/-- Every diagnostic is an item of the array, as long as the numbers of attributes are of
    64 bits. -/
theorem parse?_render_json (t : FileTree) (c : Config) (mode : ExtractMode)
    (hlength : attributes.length ≤ twoTo 64) :
    Json.parse? (OutputFormat.json.render (diagnosticsOf t c mode attributes))
      = some (.array ((diagnosticsOf t c mode attributes).map fun d => d.numbered.toJson)) := by
  refine Json.parse?_pretty ?_ 0
  have hitems : Json.areExact 126
      ((diagnosticsOf t c mode attributes).map fun d => d.numbered.toJson) = true := by
    rw [Json.areExact_iff]
    intro item hitem
    obtain ⟨d, hd, rfl⟩ := List.mem_map.mp hitem
    have hlocation := (mem_diagnosticsOf hd).1
    exact Diagnostic.isExact_toJson 125 (by omega)
  simpa [Json.isExact, Json.maxDepth] using hitems

end

/-- **Attributes are checked one by one, and both forms of the output say the same.**
    A check fails without a configuration, and with input that is no expression;
    then nothing is written.  Any other check reports for its attributes in turn
    what an engine finds that is new for each of them, with the number of the
    attribute as the location.  A check of one attribute alone, at whatever time,
    reports the same with the location 0, and so does a single engine that is
    asked for one attribute after the other at any times.  The lines of the one
    form and the items of the other are about these diagnostics, in this order. -/
theorem runCheck_spec (a : CheckArguments) (m : Moment) (generatedAt : Timestamp) (input : Text) :
    (∀ fault, a.source.toConfig m.tree = .error fault →
        runCheck a m input = .error (.config fault))
      ∧ (∀ config, a.source.toConfig m.tree = .ok config → a.fromInput = true →
        (Json.parse? input).bind Expression.manyOfJson? = none →
        runCheck a m input = .error .json)
      ∧ (∀ fault, runCheck a m input = .error fault →
        ((Command.check a).run m generatedAt input).output = [])
      ∧ ∀ config attributes, a.source.toConfig m.tree = .ok config →
        a.attributes input = .ok attributes →
        let found := Attribute.found m.tree config a.mode
        (∀ (x : Attribute) (a' : CheckArguments) (now : Nat) (input' : Text),
            a'.source = a.source → a'.mode = a.mode → a'.attributes input' = .ok [x] →
            ∃ output, runCheck a' ⟨m.tree, now⟩ input' = .ok ((found x).map (⟨·, 0⟩), output))
          ∧ (∀ timed : List (Nat × Attribute), timed.map Prod.snd = attributes →
            (Session.mk .standard m.tree).answers
                (timed.map fun p => .call p.1 (.checkTokens config (p.2.candidates a.mode)))
              = attributes.map fun x => .findings (found x))
          ∧ ∃ ds lines document,
            runCheck { a with format := .text } m input = .ok (ds, lines)
              ∧ runCheck { a with format := .json } m input = .ok (ds, document)
              ∧ ds = (attributes.zipIdx.flatMap fun p => (found p.1).map (⟨·, p.2⟩))
              ∧ Text.split (· == '\n') lines = ds.map Diagnostic.lineText ++ [[]]
              ∧ (attributes.length ≤ twoTo 64 →
                Json.parse? document = some (.array (ds.map fun d => d.numbered.toJson))) := by
  refine ⟨?_, ?_, ?_, ?_⟩
  · intro fault hconfig
    simp only [runCheck, hconfig, Except.mapError]
    rfl
  · intro config hconfig hinput hmalformed
    have hattributes : a.attributes input = .error .json := by
      rw [CheckArguments.attributes, if_pos hinput, hmalformed]
    simp only [runCheck, hconfig, Except.mapError, hattributes]
    rfl
  · intro fault hfault
    simp only [Command.run, hfault]
  · intro config attributes hconfig hattributes found
    refine ⟨?_, ?_, ?_⟩
    · -- one attribute alone, at another time
      intro x a' now input' hsource hmode hattribute
      have hconfig' : a'.source.toConfig m.tree = .ok config := hsource ▸ hconfig
      have hrun := runCheck_eq_ok (m := ⟨m.tree, now⟩) hconfig' hattribute
      rw [diagnosticsOf_singleton, hmode] at hrun
      exact ⟨_, hrun⟩
    · -- one engine, which remembers what it has found at earlier times
      intro timed htimed
      have hanswers := Session.answers_of_steady (s := ⟨.standard, m.tree⟩)
        (Engine.steady_standard m.tree config)
        (timed.map fun p => (p.1, .checkTokens config (p.2.candidates a.mode)))
        (fun p hp => by obtain ⟨q, -, rfl⟩ := List.mem_map.mp hp; rfl)
      rw [List.map_map, List.map_map] at hanswers
      rw [← htimed, List.map_map]
      exact hanswers
    · have htext := runCheck_eq_ok (a := { a with format := .text }) hconfig hattributes
      have hjson := runCheck_eq_ok (a := { a with format := .json }) hconfig hattributes
      refine ⟨_, _, _, htext, hjson, rfl, split_render_text m.tree config a.mode, ?_⟩
      exact parse?_render_json m.tree config a.mode

/-- A check of two values, in which `b` is allowed. -/
def twoValues : CheckArguments :=
  ⟨{ allow := ["b".toList] }, ["b c".toList, "b".toList], false, .keys, .text⟩

/-- The word `c` is reported for the first value, in both forms and by one engine
    for both values.  Without the configuration file that is asked for, and with
    input that ends too early, there is a failure and no output. -/
theorem runCheck_spec_twoValues :
    let t : FileTree := .ofWorkingDirectory [] 0
    let missing : CheckArguments :=
      { twoValues with source := { config? := some (.ofString "lint.json") } }
    let cut : CheckArguments := { twoValues with fromInput := true }
    let found : Finding := .invalidClass "c".toList
    (∃ fault, missing.source.toConfig t = .error fault
        ∧ runCheck missing ⟨t, 0⟩ [] = .error (.config fault)
        ∧ ((Command.check missing).run ⟨t, 0⟩ ⟨0⟩ []).output = [])
      ∧ runCheck cut ⟨t, 0⟩ ['['] = .error .json
      ∧ (∃ output, runCheck { twoValues with values := ["b c".toList] } ⟨t, 9⟩ []
          = .ok ([⟨found, 0⟩], output))
      ∧ (∃ config, (Session.mk .standard t).answers
            [.call 4 (.checkTokens config (Candidates.ofText "b c".toList)),
              .call 2 (.checkTokens config (Candidates.ofText "b".toList))]
          = [.findings [found], .findings []])
      ∧ ∃ lines document,
        runCheck { twoValues with format := .text } ⟨t, 0⟩ [] = .ok ([⟨found, 0⟩], lines)
          ∧ runCheck { twoValues with format := .json } ⟨t, 0⟩ [] = .ok ([⟨found, 0⟩], document)
          ∧ Text.split (· == '\n') lines = [Diagnostic.lineText ⟨found, 0⟩, []]
          ∧ Json.parse? document = some (.array [(Diagnostic.numbered ⟨found, 0⟩).toJson]) := by
  intro t missing cut found
  obtain ⟨fault, hfault⟩ : ∃ fault, missing.source.toConfig t = .error fault := by
    have hno : (missing.source.toConfig t).toOption.isSome = false := by decide +kernel
    cases hconfig : missing.source.toConfig t with
    | error fault => exact ⟨fault, rfl⟩
    | ok config =>
      rw [hconfig] at hno
      exact absurd hno (by simp [Except.toOption])
  obtain ⟨config, hconfig⟩ : ∃ config, twoValues.source.toConfig t = .ok config := ⟨_, rfl⟩
  have hfirst : Attribute.found t config twoValues.mode (.text "b c".toList) = [found] := by
    obtain rfl := Except.ok.inj hconfig
    decide +kernel
  have hsecond : Attribute.found t config twoValues.mode (.text "b".toList) = [] := by
    obtain rfl := Except.ok.inj hconfig
    decide +kernel
  obtain ⟨hmissing, -, hsilent, -⟩ := runCheck_spec missing ⟨t, 0⟩ ⟨0⟩ []
  obtain ⟨-, hcut, -⟩ := runCheck_spec cut ⟨t, 0⟩ ⟨0⟩ ['[']
  obtain ⟨halone, htogether, ds, lines, document, htext, hjson, hds, hlines, hdocument⟩ :=
    (runCheck_spec twoValues ⟨t, 0⟩ ⟨0⟩ []).2.2.2 config
      [.text "b c".toList, .text "b".toList] hconfig rfl
  refine ⟨⟨fault, hfault, hmissing fault hfault, hsilent _ (hmissing fault hfault)⟩, ?_, ?_, ?_, ?_⟩
  · exact hcut config hconfig rfl (by decide +kernel)
  · obtain ⟨output, hrun⟩ :=
      halone (.text "b c".toList) { twoValues with values := ["b c".toList] } 9 [] rfl rfl rfl
    rw [hfirst] at hrun
    exact ⟨output, hrun⟩
  · have hanswers := htogether [(4, .text "b c".toList), (2, .text "b".toList)] rfl
    simp only [List.map_cons, List.map_nil, hfirst, hsecond] at hanswers
    exact ⟨config, hanswers⟩
  · obtain rfl : ds = [⟨found, 0⟩] := by
      rw [hds]
      simp only [List.zipIdx_cons, List.zipIdx_nil, List.flatMap_cons, List.flatMap_nil, hfirst,
        hsecond]
      rfl
    exact ⟨lines, document, htext, hjson, hlines, hdocument (by decide)⟩

end ClassLint
