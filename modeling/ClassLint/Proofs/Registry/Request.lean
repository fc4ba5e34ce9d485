/-
  ClassLint.Proofs.Registry.Request

  What a registry holds depends on the files it is asked to be made from, as
  they stand in the tree, and on the catalogue.  Its key tells nothing about
  names: two registries that differ in their keys alone check alike.
-/

import ClassLint.Finding
import ClassLint.Proofs.Catalogue.Inputs

namespace ClassLint

/-! ## Resolved files -/

theorem ResolvedFile.stamp_injective {f g : ResolvedFile} (h : f.stamp = g.stamp) : f = g := by
  obtain ⟨hbytes, hmodified⟩ := FileStamp.mk.inj h
  have hpath := Path.eq_of_bytes_eq hbytes
  cases f
  cases g
  exact congr (congrArg ResolvedFile.mk hpath) hmodified

theorem Resolution.mem_files {t : FileTree} {patterns : List Text} {cwd : Path}
    {files : List ResolvedFile} (h : Resolution.files t patterns cwd = .ok files)
    {f : ResolvedFile} (hf : f ∈ files) :
    ∃ content, t.stat f.path = .ok (.file content f.modified) := by
  unfold Resolution.files filesBy at h
  cases hpaths : freshPaths (Glob.paths t) (isAnchored patterns) cwd [] patterns with
  | error fault =>
    rw [hpaths] at h
    exact absurd h (by simp [bind, Except.bind])
  | ok paths =>
    rw [hpaths] at h
    have hfiles : files = paths.filterMap (file? t) := by
      simpa [bind, Except.bind] using h.symm
    rw [hfiles, List.mem_filterMap] at hf
    obtain ⟨p, -, hfile⟩ := hf
    unfold file? at hfile
    split at hfile
    · next content modified hstat =>
      have heq : f = ⟨p, modified⟩ := by simpa using hfile.symm
      exact ⟨content, by rw [heq, hstat]⟩
    · exact absurd hfile (by simp)

/-- A file that patterns stand for is there, with its time of change. -/
theorem ResolutionCache.mem_filesNow {t : FileTree} {patterns : List Text} {cwd : Path}
    {f : ResolvedFile} (hf : f ∈ filesNow t patterns cwd) :
    ∃ content, t.stat f.path = .ok (.file content f.modified) := by
  unfold filesNow at hf
  cases hfiles : Resolution.files t patterns cwd with
  | error fault =>
    rw [hfiles] at hf
    exact absurd hf (by simp)
  | ok files =>
    rw [hfiles] at hf
    exact Resolution.mem_files hfiles hf

/-! ## Contents -/

namespace Registry

/-- The registry without its key. -/
def contents (r : Registry) : Registry := { r with key? := none }

theorem eq_of_contents_eq {r r' : Registry} (hcontents : r.contents = r'.contents)
    (hkey : r.key? = r'.key?) : r = r' := by
  cases r
  cases r'
  simp only [contents, Registry.mk.injEq, true_and] at hcontents hkey ⊢
  exact ⟨hkey, hcontents⟩

/-- A check does not depend on the key. -/
theorem checkAll_contents (r : Registry) (ignore : List NamePattern) (tokens : List Text) :
    r.contents.checkAll ignore tokens = r.checkAll ignore tokens := rfl

end Registry

namespace RegistryRequest

variable {t u : FileTree} {r : RegistryRequest}

@[simp]
theorem contents_build (r : RegistryRequest) (g : Generator) (t : FileTree)
    (key? : Option Digest) (extract : Extractor) :
    (r.build g t key? extract).contents = r.build g t none extract := rfl

/-- However names are found, they are found in the text of the file alone. -/
theorem definedNames_congr {p : Path} (h : (t.stat p).toOption = (u.stat p).toOption)
    (extract : Extractor) : definedNames t p extract = definedNames u p extract := by
  have hread : (t.read p).toOption = (u.read p).toOption := by
    rw [FileTree.toOption_read_eq_found?, FileTree.toOption_read_eq_found?, FileTree.found?,
      FileTree.found?, h]
  unfold definedNames
  cases ht : t.read p <;> cases hu : u.read p <;> simp_all [Except.toOption]

theorem stylesheets_eq
    (hfiles : ∀ p ∈ r.files, (t.stat p).toOption = (u.stat p).toOption) (extract : Extractor) :
    r.stylesheets t extract = r.stylesheets u extract := by
  -- files without names are left out alike, so that it is enough to compare names
  have hnames : ∀ p ∈ r.files, (p, definedNames t p extract) = (p, definedNames u p extract) :=
    fun p hp => by rw [definedNames_congr (hfiles p hp)]
  unfold stylesheets
  rw [List.map_congr_left hnames]

theorem catalogue?_design (r : RegistryRequest) (t : FileTree) :
    r.catalogue? .design t =
      r.settings?.map fun s => (Generator.fromDesign t s r.cwd).toOption.getD ∅ := by
  unfold catalogue? Generator.generate
  cases r.settings? with
  | none => rfl
  | some s =>
    simp only [Option.map_some]
    cases Generator.fromDesign t s r.cwd <;> rfl

/-- The same files and the same catalogue make the same registry. -/
theorem build_eq
    (hfiles : ∀ p ∈ r.files, (t.stat p).toOption = (u.stat p).toOption)
    (hcatalogue : ∀ s, r.settings? = some s →
      (Generator.fromDesign t s r.cwd).toOption = (Generator.fromDesign u s r.cwd).toOption)
    (extract : Extractor) :
    r.build .design t none extract = r.build .design u none extract := by
  have hcatalogues : r.catalogue? .design t = r.catalogue? .design u := by
    rw [catalogue?_design, catalogue?_design]
    cases hsettings : r.settings? with
    | none => rfl
    | some s => rw [Option.map_some, Option.map_some, hcatalogue s hsettings]
  simp only [build, sources, stylesheets_eq hfiles, hcatalogues]

end RegistryRequest

end ClassLint
