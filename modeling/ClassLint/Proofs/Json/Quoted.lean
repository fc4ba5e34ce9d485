/-
  ClassLint.Proofs.Json.Quoted

  A quoted text is read back as the text, whatever stands behind it.  So a
  quoted text ends by itself, and different texts are quoted differently.
-/

import ClassLint.Json.Printer
import ClassLint.Json.Reader
import ClassLint.Proofs.Encoding

namespace ClassLint.Json

/-! ## A single character -/

theorem hexDigit?_hexChar : ∀ n < 16, hexDigit? (hexChar n) = some n := by
  decide

/-- A control character is read back from its four hexadecimal digits. -/
theorem unicodeEscape?_control {c : Char} (hc : c.toNat < 0x20) (rest : Text) :
    unicodeEscape? ('0' :: '0' :: hexChar (c.toNat / 16) :: hexChar (c.toNat % 16) :: rest)
      = some (some c, rest) := by
  have hzero : hexDigit? '0' = some 0 := by decide
  have hhigh := hexDigit?_hexChar (c.toNat / 16) (by omega)
  have hlow := hexDigit?_hexChar (c.toNat % 16) (by omega)
  have hunit : ((0 * 16 + 0) * 256 + c.toNat / 16 * 16 + c.toNat % 16) = c.toNat := by omega
  have hchar : Char.ofNat c.toNat = c := Char.ofNat_toNat c
  have hleading : ¬(0xD800 ≤ c.toNat ∧ c.toNat ≤ 0xDBFF) := by omega
  have htrailing : ¬(0xDC00 ≤ c.toNat ∧ c.toNat ≤ 0xDFFF) := by omega
  simp only [unicodeEscape?, hexUnit?, hzero, hhigh, hlow, Option.bind_eq_bind,
    Option.bind_some, hunit, if_neg hleading, if_neg htrailing, hchar]

/-- A reader of strings takes an escaped character as that character. -/
theorem stringBody?_escapeChar (fuel : Nat) (read : Text) (c : Char) (rest : Text) :
    stringBody? (fuel + 1) (some read) (escapeChar c ++ rest)
      = stringBody? fuel (some (c :: read)) rest := by
  fun_cases escapeChar c with
  | case8 c _ _ _ _ _ _ _ hcontrol =>
    have hunicode := unicodeEscape?_control hcontrol rest
    simp only [List.cons_append, List.nil_append, stringBody?]
    rw [if_neg (by decide), if_pos trivial]
    simp only [escape?, hunicode, Option.bind_eq_bind, Option.bind_some]
  | case9 c hquote hbackslash _ _ _ _ _ hcontrol =>
    simp only [List.cons_append, List.nil_append, stringBody?]
    rw [if_neg hquote, if_neg hbackslash, if_neg hcontrol, Option.map_some]
  | _ => simp [stringBody?, escape?]

/-! ## A whole text -/

/-- A quoted text is read back, with the rest behind its closing quote. -/
theorem stringBody?_quoted (t : Text) (fuel : Nat) (read rest : Text)
    (hfuel : t.length < fuel) :
    stringBody? fuel (some read) (t.flatMap escapeChar ++ '"' :: rest)
      = some (some (read.reverse ++ t), rest) := by
  induction t generalizing fuel read with
  | nil =>
    obtain ⟨fuel, rfl⟩ : ∃ n, fuel = n + 1 := ⟨fuel - 1, by simp at hfuel; omega⟩
    simp [stringBody?]
  | cons c t ih =>
    obtain ⟨fuel, rfl⟩ : ∃ n, fuel = n + 1 := ⟨fuel - 1, by simp at hfuel; omega⟩
    rw [List.flatMap_cons, List.append_assoc, stringBody?_escapeChar,
      ih fuel (c :: read) (by simpa using hfuel)]
    simp

/-- A quoted text ends by itself. -/
theorem selfDelimiting_quote : SelfDelimiting (fun _ : Text => True) quote := by
  intro t u r s _ _ h
  simp only [quote, List.cons_append, List.append_assoc, List.cons.injEq, true_and,
    List.nil_append] at h
  -- both sides are read with enough fuel for either text
  have ht := stringBody?_quoted t (t.length + u.length + 1) [] r (by omega)
  have hu := stringBody?_quoted u (t.length + u.length + 1) [] s (by omega)
  rw [h, hu] at ht
  simp only [List.reverse_nil, List.nil_append, Option.some.injEq, Prod.mk.injEq] at ht
  exact ⟨ht.1.symm, ht.2.symm⟩

end ClassLint.Json
