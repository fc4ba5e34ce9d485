/-
  ClassLint.Proofs.Finding.Words

  The names that a finding mentions are parts of a token, and a token is a word
  of an attribute.  So there is no blank in them, and the line about a finding
  is a single line.
-/

import ClassLint.Candidates
import ClassLint.Finding
import ClassLint.Proofs.Text.Pieces
import ClassLint.Proofs.Token.Grammar

namespace ClassLint

theorem Candidates.not_isBlank {fragments : List Text} {token : Text}
    (htoken : token ∈ (ofFragments fragments).toList) {c : Char} (hc : c ∈ token) :
    Text.isBlank c = false := by
  obtain ⟨fragment, -, hword⟩ := List.mem_flatMap.mp ((OrderedSet.mem_ofList _ _).mp htoken)
  exact Text.not_isBlank_of_mem_words hword hc

/-! ## Parts of a token -/

namespace Token

theorem mem_render_of_mem_base {t : Token} {c : Char} (h : c ∈ t.base) : c ∈ t.render := by
  obtain ⟨variants, base⟩ := t
  induction variants with
  | nil => exact h
  | cons v rest ih => exact List.mem_append_right _ (List.mem_cons_of_mem _ (ih h))

theorem mem_render_of_mem_variant {t : Token} {v : Text} (hv : v ∈ t.variants) {c : Char}
    (h : c ∈ v) : c ∈ t.render := by
  obtain ⟨variants, base⟩ := t
  induction variants with
  | nil => exact absurd hv List.not_mem_nil
  | cons w rest ih =>
    rcases List.mem_cons.mp hv with rfl | hv
    · exact List.mem_append_left _ h
    · exact List.mem_append_right _ (List.mem_cons_of_mem _ (ih hv))

end Token

/-! ## Names of a finding -/

namespace Finding

/-- The names that a finding mentions. -/
def names : Finding → List Text
  | invalidClass name => [name]
  | invalidVariant token variant => [token, variant]

end Finding

namespace Registry

variable {r : Registry} {ignore : List NamePattern} {token : Text} {f : Finding}

/-- The variant that is reported is one of the token's, or none. -/
theorem mem_of_firstRejected (known : OrderedSet Text) (variants : List Text) :
    (Variant.firstRejected? known variants).getD (variants.headD []) ∈ variants
      ∨ (Variant.firstRejected? known variants).getD (variants.headD []) = [] := by
  cases hrejected : Variant.firstRejected? known variants with
  | some v => exact Or.inl (List.mem_of_find?_eq_some hrejected)
  | none =>
    cases variants with
    | nil => exact Or.inr rfl
    | cons v rest => exact Or.inl List.mem_cons_self

/-- A check names the base of a token, or the token and one of its variants. -/
theorem names_checkParsed {parsed : Token} (h : r.checkParsed ignore token parsed = some f) :
    ∀ name ∈ f.names, name = parsed.base ∨ name = token ∨ name ∈ parsed.variants ∨ name = [] := by
  have hbase : ∀ name ∈ (Finding.invalidClass parsed.base).names, name = parsed.base :=
    fun name hname => List.mem_singleton.mp hname
  unfold checkParsed at h
  split at h
  · exact absurd h nofun
  · split at h
    · obtain rfl := Option.some.inj h
      exact fun name hname => Or.inl (hbase name hname)
    · split at h
      · -- behind variants
        unfold checkCompound at h
        split at h
        · obtain rfl := Option.some.inj h
          exact fun name hname => Or.inl (hbase name hname)
        · split at h
          · obtain rfl := Option.some.inj h
            intro name hname
            rcases List.mem_cons.mp hname with rfl | hname
            · exact Or.inr (Or.inl rfl)
            · rw [List.mem_singleton.mp hname]
              exact Or.inr (Or.inr (mem_of_firstRejected _ _))
          · exact absurd h nofun
      · split at h
        · exact absurd h nofun
        · obtain rfl := Option.some.inj h
          exact fun name hname => Or.inl (hbase name hname)

/-- Every character of a name that a check mentions is one of the token. -/
theorem mem_of_check (h : r.check ignore token = some f) {name : Text} (hname : name ∈ f.names)
    {c : Char} (hc : c ∈ name) : c ∈ token := by
  have hparts : ∀ c ∈ (Token.parse token).render, c ∈ token := by
    rw [Token.render_parse]
    exact fun c hc => hc
  rcases names_checkParsed h name hname with rfl | rfl | hvariant | rfl
  · exact hparts c (Token.mem_render_of_mem_base hc)
  · exact hc
  · exact hparts c (Token.mem_render_of_mem_variant hvariant hc)
  · exact absurd hc List.not_mem_nil

end Registry

/-- What a check of candidate tokens finds holds no blank in its names. -/
theorem Candidates.not_isBlank_of_checkAll {r : Registry} {ignore : List NamePattern}
    {fragments : List Text} {f : Finding}
    (h : f ∈ r.checkAll ignore (ofFragments fragments).toList) {name : Text}
    (hname : name ∈ f.names) {c : Char} (hc : c ∈ name) : Text.isBlank c = false := by
  obtain ⟨token, htoken, hcheck⟩ := List.mem_filterMap.mp h
  exact not_isBlank htoken (Registry.mem_of_check hcheck hname hc)

end ClassLint
