/-
  ClassLint.Design.Defaults

  The scales of a design that names none of its own: single colors, a palette
  in eleven shades, spacing steps and screens.
-/

import ClassLint.Text

namespace ClassLint.Defaults

def singleColors : List Text :=
  ["inherit", "current", "transparent", "black", "white"].map String.toList

/-- Colors with shades. -/
def palette : List Text :=
  ["slate", "gray", "zinc", "neutral", "stone", "red", "orange", "amber", "yellow", "lime",
   "green", "emerald", "teal", "cyan", "sky", "blue", "indigo", "violet", "purple", "fuchsia",
   "pink", "rose"].map String.toList

def shades : List Text :=
  ["50", "100", "200", "300", "400", "500", "600", "700", "800", "900", "950"].map String.toList

def colorNames : List Text :=
  singleColors ++ palette.flatMap fun color => shades.map fun shade => color ++ '-' :: shade

def spacingSteps : List Text :=
  ["0", "px", "0.5", "1", "1.5", "2", "2.5", "3", "3.5", "4", "5", "6", "7", "8", "9", "10", "11",
   "12", "14", "16", "20", "24", "28", "32", "36", "40", "44", "48", "52", "56", "60", "64", "72",
   "80", "96"].map String.toList

def screenNames : List Text :=
  ["sm", "md", "lg", "xl", "2xl"].map String.toList

end ClassLint.Defaults
