/-
  ClassLint.Proofs.Json.Settings

  The JSON text of catalogue settings tells the settings.
-/

import ClassLint.Config
import ClassLint.Proofs.Json.Quoted

namespace ClassLint.CatalogueSettings

/-- The path of the design file as a value, if there is one. -/
def pathJson : Option Path → Json
  | some p => .text p.text
  | none => .null

/-- The path of the design file as the text of the settings names it. -/
def pathText (path : Option Path) : Text := (pathJson path).compact

/-- A truth value as the text of the settings names it. -/
def flagText (flag : Bool) : Text := (Json.bool flag).compact

/-- The text of the settings: both fields between constant pieces. -/
theorem compact_toJson (s : CatalogueSettings) :
    s.toJson.compact =
      '{' :: Json.quote "configPath".toList ++ ':' :: (pathText s.configPath
        ++ (',' :: Json.quote "includeGeneratedClasses".toList ++ ':' :: (flagText s.includeGenerated
        ++ ['}']))) := by
  have hrecord : s.toJson = .object
      [("configPath".toList, pathJson s.configPath),
        ("includeGeneratedClasses".toList, .bool s.includeGenerated)] := rfl
  rw [hrecord, Json.compact, Json.compactEntries, Json.compactEntries, pathText, flagText]
  simp only [List.cons_append, List.append_assoc]

/-- A quoted path is told from a missing one by its first character. -/
theorem selfDelimiting_pathText : SelfDelimiting (fun _ => True) pathText := by
  intro p q r s _ _ h
  cases p with
  | none =>
    cases q with
    | none => exact ⟨rfl, List.append_cancel_left h⟩
    | some q => exact absurd (List.cons.inj h).1 (by decide)
  | some p =>
    cases q with
    | none => exact absurd (List.cons.inj h).1 (by decide)
    | some q =>
      obtain ⟨hpath, hrest⟩ := Json.selfDelimiting_quote p.text q.text r s trivial trivial h
      exact ⟨congrArg (fun t => some (Path.mk t)) hpath, hrest⟩

/-- The two truth values are told apart by their first characters. -/
theorem selfDelimiting_flagText : SelfDelimiting (fun _ => True) flagText := by
  intro a b r s _ _ h
  have htrue : flagText true = ['t', 'r', 'u', 'e'] := rfl
  have hfalse : flagText false = ['f', 'a', 'l', 's', 'e'] := rfl
  cases a with
  | true =>
    cases b with
    | true => exact ⟨rfl, List.append_cancel_left h⟩
    | false =>
      rw [htrue, hfalse] at h
      exact absurd (List.cons.inj h).1 (by decide)
  | false =>
    cases b with
    | true =>
      rw [htrue, hfalse] at h
      exact absurd (List.cons.inj h).1 (by decide)
    | false => exact ⟨rfl, List.append_cancel_left h⟩

/-- Settings are determined by their JSON text. -/
theorem compact_injective {s u : CatalogueSettings} (h : s.toJson.compact = u.toJson.compact) :
    s = u := by
  rw [compact_toJson, compact_toJson] at h
  simp only [List.cons_append, List.cons.injEq, true_and, List.append_cancel_left_eq] at h
  obtain ⟨hpath, h⟩ := selfDelimiting_pathText _ _ _ _ trivial trivial h
  simp only [List.cons.injEq, true_and, List.append_cancel_left_eq] at h
  obtain ⟨hflag, -⟩ := selfDelimiting_flagText _ _ _ _ trivial trivial h
  cases s
  cases u
  exact congr (congrArg CatalogueSettings.mk hpath) hflag

end ClassLint.CatalogueSettings
