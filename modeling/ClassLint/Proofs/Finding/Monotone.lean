/-
  ClassLint.Proofs.Finding.Monotone

  What a check says when the registry is asked for more.  What it finds depends
  on the registry only through the answers to queries, so that the facts about
  answers carry over: a token that passes keeps passing as long as no stylesheet
  is added, and requests that name the same things in another order, or some of
  them twice, are checked alike.
-/

import ClassLint.Proofs.Finding.Precedence
import ClassLint.Proofs.Registry.Monotone

namespace ClassLint

/-! ## Checks and answers -/

/-- Registries that answer alike find the same. -/
theorem Registry.check_congr {r r' : Registry}
    (hvalid : ∀ name, r.isValid name = r'.isValid name)
    (hcss : ∀ name, r.isCss name = r'.isCss name)
    (hutility : ∀ name, r.isUtility name = r'.isUtility name)
    (hvariants : r.variants = r'.variants) (ignore : List NamePattern) (token : Text) :
    r.check ignore token = r'.check ignore token := by
  unfold check checkParsed checkCompound isUtilityOnly
  simp only [hvalid, hcss, hutility, hvariants]

namespace RegistryRequest

variable {t : FileTree} {g g' : Generator} {r r' : RegistryRequest} {key? key?' : Option Digest}

theorem Within.check (h : Within t g g' r r') (hfiles : r'.files ⊆ r.files)
    {ignore : List NamePattern} {token : Text}
    (hpasses : (r.build g t key?).check ignore token = none) :
    (r'.build g' t key?').check ignore token = none := by
  have hunion : (r.build g t key?).IsUnion := Registry.isUnion_ofSources key? (r.sources g t)
  have hunion' : (r'.build g' t key?').IsUnion :=
    Registry.isUnion_ofSources key?' (r'.sources g' t)
  cases hignored : NamePattern.anyAccepts ignore (Token.parse token).base with
  | true => exact Registry.check_of_ignored hignored
  | false =>
    rw [Registry.check_eq_none_of_not_ignored_iff hunion hignored] at hpasses
    rw [Registry.check_eq_none_of_not_ignored_iff hunion' hignored]
    obtain ⟨hempty, hvalid, hbase⟩ := hpasses
    exact ⟨hempty, h.isValid hvalid, hbase.imp_right (h.isUtilityOnly hfiles)⟩

/-! ## Asking for more -/

/-- **Asking for more takes nothing away.**  Let one request be within another:
    its stylesheets and allowed names are among the other's, the blocked names of
    the other are among its own, and both get the same catalogue from the same
    files.  Then every name that is valid for it is valid for the other.  With
    the same stylesheets every token that passes keeps passing.  If each is
    within the other, all answers and all findings are the same, so that neither
    order nor repetition of files, allowed and blocked names matters. -/
theorem answers_of_within (h : Within t g g' r r') (key? key?' : Option Digest) :
    let narrow := r.build g t key?
    let wide := r'.build g' t key?'
    (∀ name, narrow.isValid name = true → wide.isValid name = true)
    ∧ (r'.files ⊆ r.files → ∀ ignore token,
        narrow.check ignore token = none → wide.check ignore token = none)
    ∧ (r'.files ⊆ r.files → r'.allowlist ⊆ r.allowlist → r.blocklist ⊆ r'.blocklist →
        (∀ name, narrow.isValid name = wide.isValid name
          ∧ narrow.isUtility name = wide.isUtility name
          ∧ narrow.isCss name = wide.isCss name)
        ∧ ∀ ignore token, narrow.check ignore token = wide.check ignore token) := by
  intro narrow wide
  refine ⟨fun _ => h.isValid, fun hfiles _ _ => h.check hfiles, ?_⟩
  intro hfiles hallowlist hblocklist
  have h' : Within t g' g r' r :=
    ⟨hfiles, hallowlist, hblocklist, h.enabled.symm, h.catalogue.symm⟩
  have hvalid : ∀ name, narrow.isValid name = wide.isValid name := fun _ => h.isValid_eq h'
  have hutility : ∀ name, narrow.isUtility name = wide.isUtility name := fun _ => h.isUtility_eq h'
  have hcss : ∀ name, narrow.isCss name = wide.isCss name := fun _ => h.isCss_eq h'
  exact ⟨fun name => ⟨hvalid name, hutility name, hcss name⟩,
    Registry.check_congr hvalid hcss hutility h.variants_eq⟩

/-- A directory with a stylesheet that defines a card. -/
def carded : FileTree :=
  ((FileTree.ofWorkingDirectory [] 5).write (.ofString "a.css")
    (Text.toBytes ".card \x7b\x7d".toList) 7).toOption.getD (.ofWorkingDirectory [] 5)

/-- A request that allows the card and blocks buttons and tabs. -/
def guarded : RegistryRequest where
  files := [.ofString "a.css"]
  settings? := some {}
  allowlist := ["card".toList]
  blocklist := ["btn-*".toList, "tab".toList]
  ignore := []
  cwd := .ofString "."

/-- A request that allows tabs as well and names the stylesheet twice. -/
def relaxed : RegistryRequest where
  files := [.ofString "a.css", .ofString "a.css"]
  settings? := some {}
  allowlist := ["tab".toList, "card".toList]
  blocklist := ["btn-*".toList]
  ignore := []
  cwd := .ofString "."

theorem answers_of_within_relaxed :
    let g : Generator := .fixed ⟨∅, OrderedSet.ofList ["hover".toList]⟩
    Within carded g g guarded relaxed
      ∧ (guarded.build g carded none).check [] "hover:card".toList = none
      ∧ (relaxed.build g carded none).check [] "hover:card".toList = none := by
  intro g
  have hwithin : Within carded g g guarded relaxed :=
    { files := by simp [guarded, relaxed]
      allowlist := by simp [guarded, relaxed]
      blocklist := by simp [guarded, relaxed]
      enabled := rfl
      catalogue := rfl }
  have hpasses : (guarded.build g carded none).check [] "hover:card".toList = none := by
    decide +kernel
  have hfiles : relaxed.files ⊆ guarded.files := by simp [guarded, relaxed]
  exact ⟨hwithin, hpasses, (answers_of_within hwithin none none).2.1 hfiles _ _ hpasses⟩

end RegistryRequest

end ClassLint
