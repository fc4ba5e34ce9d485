/-
  ClassLint.Proofs.Fingerprint.Stream

  The stream of a fingerprint tells its sections.  The four names of sections
  begin differently, and every part of a section ends by itself; so a section
  can be told from the stream wherever it begins, and a whole stream comes from
  one list of sections only.
-/

import ClassLint.Proofs.Fingerprint.Words
import ClassLint.Proofs.Json.Settings

namespace ClassLint.Fingerprint

/-! ## Names of sections -/

theorem tag_files : tag "files" = [102, 105, 108, 101, 115] := by decide

theorem tag_list : tag "list" = [108, 105, 115, 116] := by decide

theorem tag_catalogue : tag "catalogue" = [99, 97, 116, 97, 108, 111, 103, 117, 101] := by decide

theorem tag_cwd : tag "cwd" = [99, 119, 100] := by decide

/-! ## Single sections -/

/-- Every length in the section fits 64 bits and every time 128 bits. -/
def Section.Fits : Section → Prop
  | files fs => FitsStamps fs
  | list name items =>
    FitsLength (Text.bytes name).length ∧ FitsLength items.length
      ∧ ∀ item ∈ items, FitsLength (Text.bytes item).length
  | catalogue none => True
  | catalogue (some (settings, inputs)) =>
    FitsLength (Text.bytes settings.toJson.compact).length ∧ FitsStamps inputs
  | cwd path => FitsLength path.length

instance : (s : Section) → Decidable s.Fits
  | .files fs => inferInstanceAs (Decidable (FitsStamps fs))
  | .list name items =>
    inferInstanceAs (Decidable (FitsLength (Text.bytes name).length ∧ FitsLength items.length
      ∧ ∀ item ∈ items, FitsLength (Text.bytes item).length))
  | .catalogue none => inferInstanceAs (Decidable True)
  | .catalogue (some (settings, inputs)) =>
    inferInstanceAs (Decidable (FitsLength (Text.bytes settings.toJson.compact).length
      ∧ FitsStamps inputs))
  | .cwd path => inferInstanceAs (Decidable (FitsLength path.length))

theorem Section.stream_ne_nil (s : Section) : s.stream ≠ [] := by
  cases s with
  | catalogue source => cases source <;> simp [stream, tag_catalogue]
  | _ => simp [stream, tag_files, tag_list, tag_cwd]

/-- The settings of a catalogue and its files, behind the mark of their presence. -/
theorem selfDelimiting_source :
    SelfDelimiting
      (fun p : CatalogueSettings × List FileStamp => (Section.catalogue (some p)).Fits)
      (fun p => sized (Text.bytes p.1.toJson.compact) ++ stamps p.2) := by
  intro a b r s ha hb h
  obtain ⟨htext, hinputs, hrest⟩ :=
    selfDelimiting_sized_bytes.append_inj selfDelimiting_stamps ha.1 hb.1 ha.2 hb.2 h
  have hsettings := CatalogueSettings.compact_injective htext
  exact ⟨Prod.ext hsettings hinputs, hrest⟩

/-- The name of a list and its items. -/
theorem selfDelimiting_list {name name' : Text} {items items' : List Text} {r s : List UInt8}
    (hfits : (Section.list name items).Fits) (hfits' : (Section.list name' items').Fits)
    (h : (Section.list name items).stream ++ r = (Section.list name' items').stream ++ s) :
    name = name' ∧ items = items' ∧ r = s := by
  obtain ⟨hname, hitems⟩ := hfits
  obtain ⟨hname', hitems'⟩ := hfits'
  simp only [Section.stream, List.append_assoc, List.append_cancel_left_eq] at h
  obtain ⟨hnames, h⟩ := selfDelimiting_sized_bytes name name' _ _ hname hname' h
  have hcounted := selfDelimiting_counted selfDelimiting_sized_bytes
  obtain ⟨hsame, hrest⟩ := hcounted items items' r s hitems hitems' (by simpa using h)
  exact ⟨hnames, hsame, hrest⟩

/-- A section ends by itself. -/
theorem selfDelimiting_section : SelfDelimiting Section.Fits Section.stream := by
  intro a b r s ha hb h
  -- sections of different kinds differ in one of their first two bytes
  cases a with
  | files fs =>
    cases b with
    | files gs =>
      simp only [Section.stream, List.append_assoc, List.append_cancel_left_eq] at h
      obtain ⟨hfiles, hrest⟩ := selfDelimiting_stamps fs gs r s ha hb h
      exact ⟨congrArg Section.files hfiles, hrest⟩
    | list => simp [Section.stream, tag_files, tag_list] at h
    | catalogue source => cases source <;> simp [Section.stream, tag_files, tag_catalogue] at h
    | cwd => simp [Section.stream, tag_files, tag_cwd] at h
  | list name items =>
    cases b with
    | files => simp [Section.stream, tag_files, tag_list] at h
    | list name' items' =>
      obtain ⟨hname, hitems, hrest⟩ := selfDelimiting_list ha hb h
      exact ⟨by rw [hname, hitems], hrest⟩
    | catalogue source => cases source <;> simp [Section.stream, tag_list, tag_catalogue] at h
    | cwd => simp [Section.stream, tag_list, tag_cwd] at h
  | catalogue source =>
    cases b with
    | files => cases source <;> simp [Section.stream, tag_files, tag_catalogue] at h
    | list => cases source <;> simp [Section.stream, tag_list, tag_catalogue] at h
    | catalogue source' =>
      cases source with
      | none =>
        cases source' with
        | none => exact ⟨rfl, by simpa [Section.stream] using h⟩
        | some q => simp [Section.stream] at h
      | some p =>
        cases source' with
        | none => simp [Section.stream] at h
        | some q =>
          simp only [Section.stream, List.append_assoc, List.cons_append,
            List.append_cancel_left_eq, List.cons.injEq, true_and] at h
          obtain ⟨hsource, hrest⟩ := selfDelimiting_source p q r s ha hb (by simpa using h)
          exact ⟨congrArg (fun x => Section.catalogue (some x)) hsource, hrest⟩
    | cwd => cases source <;> simp [Section.stream, tag_cwd, tag_catalogue] at h
  | cwd path =>
    cases b with
    | files => simp [Section.stream, tag_files, tag_cwd] at h
    | list => simp [Section.stream, tag_list, tag_cwd] at h
    | catalogue source => cases source <;> simp [Section.stream, tag_cwd, tag_catalogue] at h
    | cwd path' =>
      simp only [Section.stream, List.append_assoc, List.append_cancel_left_eq] at h
      obtain ⟨hpath, hrest⟩ := selfDelimiting_sized path path' r s ha hb h
      exact ⟨congrArg Section.cwd hpath, hrest⟩

/-! ## Streams -/

/-- Every section of the list fits. -/
def Fit (sections : List Section) : Prop := ∀ s ∈ sections, s.Fits

instance (sections : List Section) : Decidable (Fit sections) :=
  inferInstanceAs (Decidable (∀ s ∈ sections, s.Fits))

/-- A stream comes from one list of sections only. -/
theorem stream_injective {xs ys : List Section} (hxs : Fit xs) (hys : Fit ys)
    (h : stream xs = stream ys) : xs = ys :=
  selfDelimiting_section.flatMap_injective Section.stream_ne_nil xs ys hxs hys h

end ClassLint.Fingerprint
