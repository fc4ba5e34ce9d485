/-
  ClassLint.Catalogue

  The catalogue of a design: the utility class names and the variant names
  that it makes available.  Each stem is combined with each name of its scale;
  a scale is the theme's own where that is not empty and the built-in one
  otherwise, followed by the theme's extensions.
-/

import ClassLint.Catalogue.Utility
import ClassLint.Design
import ClassLint.Design.Defaults
import ClassLint.OrderedSet

namespace ClassLint

/-- Class names and variant names that a design makes available. -/
structure Catalogue where
  classes : OrderedSet Text
  variants : OrderedSet Text
deriving Inhabited

instance : EmptyCollection Catalogue := ⟨⟨∅, ∅⟩⟩

/-- The names that a color contributes: its own for a single value and for the
    shade `DEFAULT`, and one for each other shade. -/
def Color.names (name : Text) : Color → List Text
  | single _ => [name]
  | shades values =>
    values.keys.map fun shade =>
      if shade = "DEFAULT".toList then name else name ++ '-' :: shade

def Scales.colorNames (s : Scales) : List Text :=
  s.colors.toList.flatMap fun e => e.2.names e.1

namespace Design

def colorNames (d : Design) : List Text :=
  (if d.theme.own.colors.isEmpty then Defaults.colorNames else d.theme.own.colorNames)
    ++ d.theme.extensions.colorNames

def spacingSteps (d : Design) : List Text :=
  (if d.theme.own.spacing.isEmpty then Defaults.spacingSteps else d.theme.own.spacing.keys)
    ++ d.theme.extensions.spacing.keys

def screenNames (d : Design) : List Text :=
  (if d.theme.own.screens.isEmpty then Defaults.screenNames else d.theme.own.screens.keys)
    ++ d.theme.extensions.screens.keys

def colorClasses (color : Text) : List Text :=
  Utility.colorStems.map fun stem => stem ++ '-' :: color

def spacingClasses (step : Text) : List Text :=
  (Utility.spacingStems.map fun stem => stem ++ '-' :: step)
    ++ Utility.negatableStems.map fun stem => '-' :: stem ++ '-' :: step

/-- The distinct names of a list, in the order of their first occurrence. -/
def distinct (names : List Text) : List Text := (OrderedSet.ofList names).toList

def classNames (d : Design) : List Text :=
  d.safelist ++ Utility.fixed ++ (distinct d.colorNames).flatMap colorClasses
    ++ (distinct d.spacingSteps).flatMap spacingClasses

def variantNames (d : Design) : List Text :=
  Utility.variants ++ d.screenNames ++ d.variants

def catalogue (d : Design) : Catalogue where
  classes := OrderedSet.ofList d.classNames
  variants := OrderedSet.ofList d.variantNames

end Design

end ClassLint
