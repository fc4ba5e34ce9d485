/-
  ClassLint.Proofs.Registry.Monotone

  What a registry answers when it is asked for more: more stylesheets, more
  allowed names and fewer blocked ones, with the catalogue as it was.  Every
  source of a name grows and no block is new, so that what is valid stays valid
  and what is a utility stays one.

  Names that are left to the stylesheets are another matter: an allowed name
  takes them away, a stylesheet adds them.  Only over the same stylesheets does
  a utility stay what it is behind variants.
-/

import ClassLint.Proofs.Registry.Answers

namespace ClassLint

theorem NamePattern.Matches.mono {entries entries' : List Text} {name : Text}
    (h : Matches entries name) (hsub : entries ⊆ entries') : Matches entries' name := by
  obtain ⟨entry, hentry, haccepted⟩ := h
  exact ⟨entry, hsub hentry, haccepted⟩

namespace RegistryRequest

/-- The second request asks for all that the first one asks for, blocks nothing
    else, and gets the same catalogue. -/
structure Within (t : FileTree) (g g' : Generator) (r r' : RegistryRequest) : Prop where
  files : r.files ⊆ r'.files
  allowlist : r.allowlist ⊆ r'.allowlist
  blocklist : r'.blocklist ⊆ r.blocklist
  enabled : r.settings?.isSome = r'.settings?.isSome
  catalogue : r.madeCatalogue g t = r'.madeCatalogue g' t

namespace Within

variable {t : FileTree} {g g' : Generator} {r r' : RegistryRequest} {key? key?' : Option Digest}
  {name : Text}

/-! ## Sources of names -/

theorem stylesheetNames (h : Within t g g' r r') (hname : name ∈ r.stylesheetNames t) :
    name ∈ r'.stylesheetNames t := by
  rw [mem_stylesheetNames] at hname ⊢
  obtain ⟨p, hp, hfound⟩ := hname
  exact ⟨p, h.files hp, hfound⟩

theorem not_blocks (h : Within t g g' r r') (hblocks : ¬ r.Blocks name) : ¬ r'.Blocks name := by
  intro hblocks'
  exact hblocks (hblocks'.mono h.blocklist)

theorem names (h : Within t g g' r r') (hnames : r.Names g t name) : r'.Names g' t name := by
  rcases hnames with hmade | ⟨hlisted, hliteral⟩
  · exact Or.inl (h.catalogue ▸ hmade)
  · exact Or.inr ⟨h.allowlist hlisted, hliteral⟩

theorem admits (h : Within t g g' r r') (hadmits : r.Admits name) : r'.Admits name := by
  rcases hadmits with hwildcard | ⟨henabled, harbitrary⟩
  · have hsub : Registry.wildcards r.allowlist ⊆ Registry.wildcards r'.allowlist :=
      List.filter_subset _ h.allowlist
    exact Or.inl (hwildcard.mono hsub)
  · exact Or.inr ⟨h.enabled ▸ henabled, harbitrary⟩

theorem composes (h : Within t g g' r r') (hcomposes : r.Composes g t name) :
    r'.Composes g' t name := by
  obtain ⟨hvariants, haccepted, hblocks, hutility⟩ := hcomposes
  refine ⟨hvariants, ?_, h.not_blocks hblocks, hutility.imp h.names h.admits⟩
  rw [← h.catalogue]
  exact haccepted

/-! ## Answers -/

theorem isValid (h : Within t g g' r r') (hvalid : (r.build g t key?).isValid name = true) :
    (r'.build g' t key?').isValid name = true := by
  rw [isValid_build] at hvalid ⊢
  obtain ⟨hblocks, hsource⟩ := hvalid
  exact ⟨h.not_blocks hblocks,
    hsource.imp h.stylesheetNames (Or.imp h.names (Or.imp h.admits h.composes))⟩

theorem isUtility (h : Within t g g' r r') (hutility : (r.build g t key?).isUtility name = true) :
    (r'.build g' t key?').isUtility name = true := by
  rw [isUtility_build] at hutility ⊢
  obtain ⟨hblocks, hsource⟩ := hutility
  exact ⟨h.not_blocks hblocks, hsource.imp h.names h.admits⟩

/-- A utility that is not left to the stylesheets stays one as long as no
    stylesheet is added. -/
theorem isUtilityOnly (h : Within t g g' r r') (hfiles : r'.files ⊆ r.files)
    (honly : (r.build g t key?).isUtilityOnly name = true) :
    (r'.build g' t key?').isUtilityOnly name = true := by
  simp only [Registry.isUtilityOnly, Bool.and_eq_true, Bool.not_eq_true', ← Bool.not_eq_true]
    at honly ⊢
  obtain ⟨hcss, hutility⟩ := honly
  refine ⟨?_, h.isUtility hutility⟩
  intro hcss'
  obtain ⟨hdefined', -, hnames'⟩ := isCss_build.mp hcss'
  -- the same files define the name before, and it was not blocked, so that a list had it
  obtain ⟨p, hp, hfound⟩ := mem_stylesheetNames.mp hdefined'
  have hdefined : name ∈ r.stylesheetNames t := mem_stylesheetNames.mpr ⟨p, hfiles hp, hfound⟩
  have hblocks : ¬ r.Blocks name := (isUtility_build.mp hutility).1
  have hnames : ¬ ¬ r.Names g t name := fun hnames =>
    hcss (isCss_build.mpr ⟨hdefined, hblocks, hnames⟩)
  exact hnames fun hnames => hnames' (h.names hnames)

/-! ## Requests for the same -/

theorem isValid_eq (h : Within t g g' r r') (h' : Within t g' g r' r) :
    (r.build g t key?).isValid name = (r'.build g' t key?').isValid name := by
  rw [Bool.eq_iff_iff]
  exact ⟨h.isValid, h'.isValid⟩

theorem isUtility_eq (h : Within t g g' r r') (h' : Within t g' g r' r) :
    (r.build g t key?).isUtility name = (r'.build g' t key?').isUtility name := by
  rw [Bool.eq_iff_iff]
  exact ⟨h.isUtility, h'.isUtility⟩

theorem isCss_eq (h : Within t g g' r r') (h' : Within t g' g r' r) :
    (r.build g t key?).isCss name = (r'.build g' t key?').isCss name := by
  have hdefined : name ∈ r.stylesheetNames t ↔ name ∈ r'.stylesheetNames t :=
    ⟨h.stylesheetNames, h'.stylesheetNames⟩
  have hblocks : ¬ r.Blocks name ↔ ¬ r'.Blocks name := ⟨h.not_blocks, h'.not_blocks⟩
  have hnames : r.Names g t name ↔ r'.Names g' t name := ⟨h.names, h'.names⟩
  rw [Bool.eq_iff_iff, isCss_build, isCss_build, hdefined, hblocks, hnames]

theorem variants_eq (h : Within t g g' r r') :
    (r.build g t key?).variants = (r'.build g' t key?').variants := by
  rw [variants_build, variants_build, h.catalogue]

end Within

end RegistryRequest

end ClassLint
