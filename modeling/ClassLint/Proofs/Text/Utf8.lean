/-
  ClassLint.Proofs.Text.Utf8

  Different texts are stored as different bytes, and the bytes that a text is
  stored as hold the text.
-/

import ClassLint.Text

namespace ClassLint.Text

/-- The bytes of a text are those of the string with the same characters. -/
theorem toByteArray_bytes (t : Text) : (bytes t).toByteArray = (String.ofList t).toByteArray := by
  rw [String.toByteArray_ofList]
  rfl

/-- A text is determined by its bytes. -/
theorem bytes_injective {t u : Text} (h : bytes t = bytes u) : t = u := by
  have harray : (String.ofList t).toByteArray = (String.ofList u).toByteArray := by
    rw [← toByteArray_bytes, ← toByteArray_bytes, h]
  exact String.ofList_injective (String.toByteArray_inj.mp harray)

/-- What is stored is read. -/
theorem ofBytes?_toBytes (t : Text) : ofBytes? (toBytes t) = some t := by
  have hread : String.fromUTF8? (String.ofList t).toUTF8 = some (String.ofList t) := by
    unfold String.fromUTF8?
    rw [String.toUTF8_eq_toByteArray, dif_pos (String.ofList t).isValidUTF8]
    rfl
  rw [ofBytes?, toBytes, hread, Option.map_some, String.toList_ofList]

end ClassLint.Text
