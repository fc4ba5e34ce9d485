/-
  ClassLint.Proofs.Catalogue.Expansion

  What belongs to the catalogue of a design.  The names of a category are those of
  the theme's own map, or the built-in ones where that map is empty, together with
  those of the extensions.  A class name is listed, or a stem with a name of its
  category behind it, and nothing else.  What a design says beside its theme's own
  maps only adds names: a design that grows there loses neither classes nor
  variants.
-/

import ClassLint.Catalogue

namespace ClassLint

/-! ## Names of a category -/

/-- The names that the colors of some scales contribute. -/
inductive Scales.NamesColor (s : Scales) : Text → Prop where
  | single {name value : Text} (h : s.colors[name]? = some (.single value)) : s.NamesColor name
  | plain {name : Text} {values : Std.TreeMap Text Text}
      (h : s.colors[name]? = some (.shades values)) (hplain : "DEFAULT".toList ∈ values) :
      s.NamesColor name
  | shade {name shade : Text} {values : Std.TreeMap Text Text}
      (h : s.colors[name]? = some (.shades values)) (hshade : shade ∈ values)
      (hne : shade ≠ "DEFAULT".toList) : s.NamesColor (name ++ '-' :: shade)

/-- A color that every design without colors of its own has. -/
inductive Defaults.NamesColor : Text → Prop where
  | single {name : Text} (h : name ∈ singleColors) : NamesColor name
  | shade {name shade : Text} (h : name ∈ palette) (hshade : shade ∈ shades) :
      NamesColor (name ++ '-' :: shade)

namespace Design

variable {d d' : Design}

/-- The name of a color of the design. -/
def IsColor (d : Design) (name : Text) : Prop :=
  (if d.theme.own.colors.isEmpty then Defaults.NamesColor name else d.theme.own.NamesColor name)
    ∨ d.theme.extensions.NamesColor name

/-- A spacing step of the design. -/
def IsSpacing (d : Design) (step : Text) : Prop :=
  (if d.theme.own.spacing.isEmpty then step ∈ Defaults.spacingSteps
    else step ∈ d.theme.own.spacing) ∨ step ∈ d.theme.extensions.spacing

/-- The name of a screen of the design. -/
def IsScreen (d : Design) (name : Text) : Prop :=
  (if d.theme.own.screens.isEmpty then name ∈ Defaults.screenNames
    else name ∈ d.theme.own.screens) ∨ name ∈ d.theme.extensions.screens

end Design

theorem Color.mem_names_shades {name s : Text} {values : Std.TreeMap Text Text} :
    s ∈ Color.names name (.shades values) ↔
      (s = name ∧ "DEFAULT".toList ∈ values)
        ∨ ∃ shade ∈ values, shade ≠ "DEFAULT".toList ∧ s = name ++ '-' :: shade := by
  simp only [names, List.mem_map, Std.TreeMap.mem_keys]
  constructor
  · rintro ⟨shade, hshade, rfl⟩
    by_cases hplain : shade = "DEFAULT".toList
    · rw [if_pos hplain]
      exact Or.inl ⟨rfl, hplain ▸ hshade⟩
    · rw [if_neg hplain]
      exact Or.inr ⟨shade, hshade, hplain, rfl⟩
  · rintro (⟨rfl, hplain⟩ | ⟨shade, hshade, hne, rfl⟩)
    · exact ⟨_, hplain, if_pos rfl⟩
    · exact ⟨shade, hshade, if_neg hne⟩

theorem Scales.mem_colorNames_iff (s : Scales) (name : Text) :
    name ∈ s.colorNames ↔ s.NamesColor name := by
  simp only [colorNames, List.mem_flatMap, Prod.exists,
    Std.TreeMap.mem_toList_iff_getElem?_eq_some]
  constructor
  · rintro ⟨key, color, hcolor, hname⟩
    cases color with
    | single value =>
      obtain rfl : name = key := List.mem_singleton.mp hname
      exact .single hcolor
    | shades values =>
      rcases Color.mem_names_shades.mp hname with ⟨rfl, hplain⟩ | ⟨shade, hshade, hne, rfl⟩
      · exact .plain hcolor hplain
      · exact .shade hcolor hshade hne
  · intro hname
    cases hname with
    | single h => exact ⟨_, _, h, List.mem_singleton.mpr rfl⟩
    | plain h hplain => exact ⟨_, _, h, Color.mem_names_shades.mpr (Or.inl ⟨rfl, hplain⟩)⟩
    | shade h hshade hne =>
      exact ⟨_, _, h, Color.mem_names_shades.mpr (Or.inr ⟨_, hshade, hne, rfl⟩)⟩

theorem Defaults.mem_colorNames_iff (name : Text) : name ∈ colorNames ↔ NamesColor name := by
  simp only [colorNames, List.mem_append, List.mem_flatMap, List.mem_map]
  constructor
  · rintro (hsingle | ⟨color, hcolor, shade, hshade, rfl⟩)
    · exact .single hsingle
    · exact .shade hcolor hshade
  · intro hname
    cases hname with
    | single h => exact Or.inl h
    | shade h hshade => exact Or.inr ⟨_, h, _, hshade, rfl⟩

namespace Design

/-! ## Membership -/

theorem mem_distinct (names : List Text) (name : Text) : name ∈ distinct names ↔ name ∈ names :=
  OrderedSet.mem_ofList names name

theorem mem_colorNames_iff (d : Design) (name : Text) : name ∈ d.colorNames ↔ d.IsColor name := by
  rw [colorNames, List.mem_append, Scales.mem_colorNames_iff, IsColor]
  refine or_congr_left ?_
  split
  · exact Defaults.mem_colorNames_iff name
  · exact Scales.mem_colorNames_iff _ name

theorem mem_spacingSteps_iff (d : Design) (step : Text) :
    step ∈ d.spacingSteps ↔ d.IsSpacing step := by
  rw [spacingSteps, List.mem_append, Std.TreeMap.mem_keys, IsSpacing]
  refine or_congr_left ?_
  split
  · exact Iff.rfl
  · exact Std.TreeMap.mem_keys

theorem mem_screenNames_iff (d : Design) (name : Text) :
    name ∈ d.screenNames ↔ d.IsScreen name := by
  rw [screenNames, List.mem_append, Std.TreeMap.mem_keys, IsScreen]
  refine or_congr_left ?_
  split
  · exact Iff.rfl
  · exact Std.TreeMap.mem_keys

/-- A class name of the design: listed, or composed of a stem and a name. -/
inductive Names (d : Design) : Text → Prop where
  | listed {s : Text} (h : s ∈ d.safelist) : d.Names s
  | fixed {s : Text} (h : s ∈ Utility.fixed) : d.Names s
  | color {stem name : Text} (hstem : stem ∈ Utility.colorStems) (h : d.IsColor name) :
      d.Names (stem ++ '-' :: name)
  | spacing {stem step : Text} (hstem : stem ∈ Utility.spacingStems) (h : d.IsSpacing step) :
      d.Names (stem ++ '-' :: step)
  | negative {stem step : Text} (hstem : stem ∈ Utility.negatableStems) (h : d.IsSpacing step) :
      d.Names ('-' :: stem ++ '-' :: step)

theorem mem_colorClasses_iff (d : Design) (s : Text) :
    s ∈ (distinct d.colorNames).flatMap colorClasses ↔
      ∃ stem ∈ Utility.colorStems, ∃ name, d.IsColor name ∧ s = stem ++ '-' :: name := by
  simp only [List.mem_flatMap, mem_distinct, mem_colorNames_iff, colorClasses, List.mem_map]
  constructor
  · rintro ⟨name, hname, stem, hstem, rfl⟩
    exact ⟨stem, hstem, name, hname, rfl⟩
  · rintro ⟨stem, hstem, name, hname, rfl⟩
    exact ⟨name, hname, stem, hstem, rfl⟩

theorem mem_spacingClasses_iff (d : Design) (s : Text) :
    s ∈ (distinct d.spacingSteps).flatMap spacingClasses ↔
      (∃ stem ∈ Utility.spacingStems, ∃ step, d.IsSpacing step ∧ s = stem ++ '-' :: step)
        ∨ ∃ stem ∈ Utility.negatableStems, ∃ step, d.IsSpacing step
            ∧ s = '-' :: stem ++ '-' :: step := by
  simp only [List.mem_flatMap, mem_distinct, mem_spacingSteps_iff, spacingClasses,
    List.mem_append, List.mem_map]
  constructor
  · rintro ⟨step, hstep, ⟨stem, hstem, rfl⟩ | ⟨stem, hstem, rfl⟩⟩
    · exact Or.inl ⟨stem, hstem, step, hstep, rfl⟩
    · exact Or.inr ⟨stem, hstem, step, hstep, rfl⟩
  · rintro (⟨stem, hstem, step, hstep, rfl⟩ | ⟨stem, hstem, step, hstep, rfl⟩)
    · exact ⟨step, hstep, Or.inl ⟨stem, hstem, rfl⟩⟩
    · exact ⟨step, hstep, Or.inr ⟨stem, hstem, rfl⟩⟩

theorem mem_classes_catalogue (d : Design) (s : Text) :
    s ∈ d.catalogue.classes.toList ↔ d.Names s := by
  rw [catalogue, OrderedSet.mem_ofList, classNames, List.mem_append, List.mem_append,
    List.mem_append, mem_colorClasses_iff, mem_spacingClasses_iff]
  constructor
  · rintro (((hlisted | hfixed) | ⟨stem, hstem, name, hname, rfl⟩)
      | ⟨stem, hstem, step, hstep, rfl⟩ | ⟨stem, hstem, step, hstep, rfl⟩)
    · exact .listed hlisted
    · exact .fixed hfixed
    · exact .color hstem hname
    · exact .spacing hstem hstep
    · exact .negative hstem hstep
  · intro hnames
    cases hnames with
    | listed h => exact Or.inl (Or.inl (Or.inl h))
    | fixed h => exact Or.inl (Or.inl (Or.inr h))
    | color hstem h => exact Or.inl (Or.inr ⟨_, hstem, _, h, rfl⟩)
    | spacing hstem h => exact Or.inr (Or.inl ⟨_, hstem, _, h, rfl⟩)
    | negative hstem h => exact Or.inr (Or.inr ⟨_, hstem, _, h, rfl⟩)

theorem mem_variants_catalogue (d : Design) (v : Text) :
    v ∈ d.catalogue.variants.toList ↔ v ∈ Utility.variants ∨ d.IsScreen v ∨ v ∈ d.variants := by
  rw [catalogue, OrderedSet.mem_ofList, variantNames, List.mem_append, List.mem_append,
    mem_screenNames_iff, or_assoc]

end Design

/-! ## Designs that grow -/

/-- A color that keeps its kind and, if it has shades, all of them. -/
inductive Color.Within : Color → Color → Prop where
  | single (value value' : Text) : Within (.single value) (.single value')
  | shades {values values' : Std.TreeMap Text Text}
      (h : ∀ shade ∈ values, shade ∈ values') : Within (.shades values) (.shades values')

/-- Scales that keep every key, and the shades of every color. -/
structure Scales.Within (s s' : Scales) : Prop where
  colors : ∀ (name : Text) (color : Color), s.colors[name]? = some color →
    ∃ color', s'.colors[name]? = some color' ∧ color.Within color'
  spacing : ∀ step ∈ s.spacing, step ∈ s'.spacing
  screens : ∀ name ∈ s.screens, name ∈ s'.screens

/-- A design to which keys or shades of extensions, listed names or variants are added. -/
structure Design.Within (d d' : Design) : Prop where
  own : d'.theme.own = d.theme.own
  extensions : d.theme.extensions.Within d'.theme.extensions
  safelist : d.safelist ⊆ d'.safelist
  variants : d.variants ⊆ d'.variants

theorem Scales.Within.namesColor {s s' : Scales} (h : s.Within s') {name : Text}
    (hname : s.NamesColor name) : s'.NamesColor name := by
  cases hname with
  | single hcolor =>
    obtain ⟨color, hcolor', hwithin⟩ := h.colors _ _ hcolor
    cases hwithin
    exact .single hcolor'
  | plain hcolor hplain =>
    obtain ⟨color, hcolor', hwithin⟩ := h.colors _ _ hcolor
    cases hwithin with
    | shades hvalues => exact .plain hcolor' (hvalues _ hplain)
  | shade hcolor hshade hne =>
    obtain ⟨color, hcolor', hwithin⟩ := h.colors _ _ hcolor
    cases hwithin with
    | shades hvalues => exact .shade hcolor' (hvalues _ hshade) hne

namespace Design

variable {d d' : Design}

theorem Within.isColor (h : d.Within d') {name : Text} (hname : d.IsColor name) :
    d'.IsColor name := by
  unfold IsColor at hname ⊢
  rw [h.own]
  exact hname.imp_right h.extensions.namesColor

theorem Within.isSpacing (h : d.Within d') {step : Text} (hstep : d.IsSpacing step) :
    d'.IsSpacing step := by
  unfold IsSpacing at hstep ⊢
  rw [h.own]
  exact hstep.imp_right (h.extensions.spacing step)

theorem Within.isScreen (h : d.Within d') {name : Text} (hname : d.IsScreen name) :
    d'.IsScreen name := by
  unfold IsScreen at hname ⊢
  rw [h.own]
  exact hname.imp_right (h.extensions.screens name)

theorem Within.names (h : d.Within d') {s : Text} (hs : d.Names s) : d'.Names s := by
  cases hs with
  | listed hlisted => exact .listed (h.safelist hlisted)
  | fixed hfixed => exact .fixed hfixed
  | color hstem hname => exact .color hstem (h.isColor hname)
  | spacing hstem hstep => exact .spacing hstem (h.isSpacing hstep)
  | negative hstem hstep => exact .negative hstem (h.isSpacing hstep)

/-- **The catalogue of a design is exact, and additions only add to it.**  Its classes are
    the listed and the fixed names, every color behind every color stem, and every
    spacing step behind every spacing stem and, with a minus sign in front, behind every
    stem that takes one; its variants are the base variants, the screens and the listed
    variants.  A design to which something is added outside its own maps has all of
    them. -/
theorem catalogue_exact (d : Design) :
    (∀ s, s ∈ d.catalogue.classes.toList ↔ d.Names s)
    ∧ (∀ v, v ∈ d.catalogue.variants.toList ↔
        v ∈ Utility.variants ∨ d.IsScreen v ∨ v ∈ d.variants)
    ∧ ∀ d' : Design, d.Within d' → d.catalogue.classes.toList ⊆ d'.catalogue.classes.toList
        ∧ d.catalogue.variants.toList ⊆ d'.catalogue.variants.toList := by
  refine ⟨d.mem_classes_catalogue, d.mem_variants_catalogue, fun d' h => ⟨?_, ?_⟩⟩
  · intro s hs
    rw [mem_classes_catalogue] at hs ⊢
    exact h.names hs
  · intro v hv
    rw [mem_variants_catalogue] at hv ⊢
    exact hv.imp_right (Or.imp h.isScreen fun hlisted => h.variants hlisted)

/-- A color in some shades. -/
def shaded (shades : List Text) : Color :=
  .shades (shades.foldl (fun values shade => values.insert shade []) ∅)

/-- A design that adds the color `brand`, and some listed names. -/
def branded (safelist : List Text) (color : Color) : Design where
  safelist := safelist
  theme := { extensions := { colors := Std.TreeMap.insert ∅ "brand".toList color } }

/-- A class of the color in one shade is still there when the shade `DEFAULT` and a listed
    name are added. -/
theorem catalogue_exact_branded :
    (branded [] (shaded ["500".toList])).Within
        (branded ["prose".toList] (shaded ["500".toList, "DEFAULT".toList]))
      ∧ "bg-brand-500".toList ∈ (branded ["prose".toList]
          (shaded ["500".toList, "DEFAULT".toList])).catalogue.classes.toList := by
  have hcolors : (shaded ["500".toList]).Within (shaded ["500".toList, "DEFAULT".toList]) :=
    .shades fun shade hshade => Std.TreeMap.mem_insert.mpr (Or.inr hshade)
  have hwithin : (branded [] (shaded ["500".toList])).Within
      (branded ["prose".toList] (shaded ["500".toList, "DEFAULT".toList])) := by
    refine ⟨rfl, ⟨fun name color hcolor => ?_, fun _ h => h, fun _ h => h⟩, by simp [branded],
      fun _ h => h⟩
    simp only [branded, Std.TreeMap.getElem?_insert] at hcolor ⊢
    split at hcolor
    · next hname =>
      obtain rfl := Option.some.inj hcolor
      exact ⟨_, if_pos hname, hcolors⟩
    · exact absurd hcolor (by simp)
  have hcolor : (branded [] (shaded ["500".toList])).IsColor ("brand".toList ++ '-' :: "500".toList) :=
    Or.inr (.shade Std.TreeMap.getElem?_insert_self Std.TreeMap.mem_insert_self (by decide))
  have hclass : "bg-brand-500".toList
      ∈ (branded [] (shaded ["500".toList])).catalogue.classes.toList :=
    ((catalogue_exact _).1 ("bg".toList ++ '-' :: ("brand".toList ++ '-' :: "500".toList))).mpr
      (.color (by decide) hcolor)
  exact ⟨hwithin, ((catalogue_exact _).2.2 _ hwithin).1 hclass⟩

end Design

end ClassLint
