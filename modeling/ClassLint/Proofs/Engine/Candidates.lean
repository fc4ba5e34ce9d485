/-
  ClassLint.Proofs.Engine.Candidates

  The ways in which tokens come to a check.  Fragments have the words of the text
  that joins them, so that the check of an expression is the check of its joined
  fragments.  A check takes its tokens one by one, so that what is found in one
  value is found in a longer one too, in front of what its new tokens add.
-/

import ClassLint.Proofs.OrderedSet.Distinct
import ClassLint.Proofs.Text.Pieces
import ClassLint.Proofs.Token.Memo

namespace ClassLint

/-! ## Candidates -/

namespace Candidates

/-- Fragments have the candidates of the text that joins them with spaces. -/
theorem ofFragments_eq (fragments : List Text) :
    ofFragments fragments = ofText (Text.join [' '] fragments) := by
  have hblank : Text.isBlank ' ' = true := by decide
  unfold ofText ofFragments
  rw [List.flatMap_singleton, Text.words_join hblank]

theorem toList_ofText (value : Text) : (ofText value).toList = (Text.words value).eraseDups := by
  rw [ofText, ofFragments, List.flatMap_singleton, OrderedSet.toList_ofList]

/-- A candidate is a word: it has characters, and none of them is blank. -/
theorem word_of_mem_ofText {value token : Text} (h : token ∈ (ofText value).toList) :
    token ≠ [] ∧ ∀ c ∈ token, Text.isBlank c = false := by
  rw [toList_ofText, List.mem_eraseDups] at h
  exact ⟨by simpa using (List.mem_filter.mp h).2, fun _ => Text.not_isBlank_of_mem_words h⟩

/-- The candidates of a value that another one does not have. -/
def newIn (value other : Text) : OrderedSet Text :=
  OrderedSet.ofList ((ofText value).toList.filter fun token => !(ofText other).contains token)

/-- The candidates of a longer value: those of the first part, and behind them the
    new ones of the second. -/
theorem toList_ofText_append {first gap second : Text} (hne : gap ≠ [])
    (hgap : ∀ c ∈ gap, Text.isBlank c = true) :
    (ofText (first ++ (gap ++ second))).toList
      = (ofText first).toList ++ (newIn second first).toList := by
  have hnew : ∀ token, (!(ofText first).contains token) = !(Text.words first).elem token := by
    intro token
    congr 1
    rw [Bool.eq_iff_iff, OrderedSet.contains_iff, toList_ofText, List.mem_eraseDups,
      List.elem_iff]
  unfold newIn
  simp only [hnew]
  rw [OrderedSet.toList_ofList, toList_ofText, toList_ofText, toList_ofText,
    Text.words_append_blank hne hgap, List.eraseDups_append, eraseDups_filter_eraseDups]
  rfl

end Candidates

/-! ## Checks -/

namespace Engine

variable {e : Engine} {m : Moment} {c : Config}

/-- What the engine finds wrong with a token. -/
def finding? (e : Engine) (m : Moment) (c : Config) (token : Text) : Option Finding :=
  let r := (e.registry m c).1.value
  r.checkParsed r.ignore token (e.tokens.reading token)

/-- Tokens are checked one by one. -/
theorem fst_checkTokens (tokens : OrderedSet Text) :
    (e.checkTokens m c tokens).1 = tokens.toList.filterMap (e.finding? m c) := by
  unfold checkTokens
  split
  · next hempty => rw [OrderedSet.toList_of_isEmpty hempty, List.filterMap_nil]
  · simp only [fst_readings, List.filterMap_map]
    rfl

/-- **What is checked are the words.**  The candidates of fragments are the words of
    the text that joins them with spaces, each once and at its first occurrence,
    and every one of them has characters, none of them blank.  So an expression is
    checked as the joined text of its fragments is, with the same diagnostics and
    the same engine afterwards.  And for two values with blanks between them the
    diagnostics of the first come first, and behind them those of the candidates
    of the second that the first does not have. -/
theorem reports_of_words (e : Engine) (m : Moment) (c : Config) :
    (∀ fragments : List Text,
      (Candidates.ofFragments fragments).toList
          = (Text.words (Text.join [' '] fragments)).eraseDups
        ∧ ∀ token ∈ (Candidates.ofFragments fragments).toList,
            token ≠ [] ∧ ∀ char ∈ token, Text.isBlank char = false)
    ∧ (∀ (mode : ExtractMode) (x : Expression),
        e.checkExpression m c mode x
          = e.checkText m c (Text.join [' '] (x.pendingFragments mode)))
    ∧ ∀ (α : Type) (location : α) (first gap second : Text),
        gap ≠ [] → (∀ char ∈ gap, Text.isBlank char = true) →
        (e.checkText m c (first ++ (gap ++ second))).1.map (Diagnostic.mk · location)
          = (e.checkText m c first).1.map (Diagnostic.mk · location)
            ++ (e.checkTokens m c (Candidates.newIn second first)).1.map
                (Diagnostic.mk · location) := by
  refine ⟨?_, ?_, ?_⟩
  · intro fragments
    rw [Candidates.ofFragments_eq]
    exact ⟨Candidates.toList_ofText _, fun _ => Candidates.word_of_mem_ofText⟩
  · intro mode x
    unfold checkExpression checkText Candidates.ofExpression
    rw [Candidates.ofFragments_eq]
  · intro α location first gap second hne hgap
    unfold checkText
    rw [fst_checkTokens, fst_checkTokens, fst_checkTokens,
      Candidates.toList_ofText_append hne hgap, List.filterMap_append, List.map_append]

/-- A value whose last word comes again behind a no-break space and a line break. -/
theorem reports_of_words_repeated :
    (['\u00a0', '\n'] ≠ [] ∧ ∀ char ∈ ['\u00a0', '\n'], Text.isBlank char = true)
      ∧ (Engine.standard.checkText ⟨.ofWorkingDirectory [] 0, 0⟩ { cwd := .ofString "." }
            ("p-4 flex".toList ++ (['\u00a0', '\n'] ++ "flex m-2".toList))).1.map
          (Diagnostic.mk · 7)
        = (Engine.standard.checkText ⟨.ofWorkingDirectory [] 0, 0⟩ { cwd := .ofString "." }
              "p-4 flex".toList).1.map (Diagnostic.mk · 7)
          ++ (Engine.standard.checkTokens ⟨.ofWorkingDirectory [] 0, 0⟩ { cwd := .ofString "." }
              (Candidates.newIn "flex m-2".toList "p-4 flex".toList)).1.map
                (Diagnostic.mk · 7) := by
  have hgap : ∀ char ∈ ['\u00a0', '\n'], Text.isBlank char = true :=
    List.forall_mem_cons.mpr ⟨by decide, List.forall_mem_singleton.mpr (by decide)⟩
  exact ⟨⟨List.cons_ne_nil _ _, hgap⟩,
    (reports_of_words .standard ⟨.ofWorkingDirectory [] 0, 0⟩ { cwd := .ofString "." }).2.2 Nat 7
      "p-4 flex".toList ['\u00a0', '\n'] "flex m-2".toList (List.cons_ne_nil _ _) hgap⟩

end Engine

end ClassLint
