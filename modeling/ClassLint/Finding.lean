/-
  ClassLint.Finding

  What is wrong with a class token.

  A token whose base is ignored is never reported.  A base with an empty
  arbitrary value is reported, and so is one that is not valid.  Behind variants
  a base that only stylesheets define is reported too; with any other base the
  token as a whole has to be valid, or its first variant that is not accepted
  is reported.
-/

import ClassLint.Json
import ClassLint.Registry

namespace ClassLint

inductive Finding where
  /-- The class is not defined. -/
  | invalidClass (name : Text)
  /-- The variant may not stand before the base. -/
  | invalidVariant (token variant : Text)
deriving DecidableEq, Repr, Inhabited

namespace Finding

def kind : Finding → Text
  | invalidClass _ => "invalidClassName".toList
  | invalidVariant .. => "invalidVariant".toList

/-- The class that is reported. -/
def className : Finding → Text
  | invalidClass name => name
  | invalidVariant token _ => token

def message : Finding → Text
  | invalidClass name => "Class '".toList ++ name ++ "' is not defined".toList
  | invalidVariant token variant =>
    "Variant '".toList ++ variant ++ "' in '".toList ++ token ++ "' is not valid".toList

end Finding

namespace Registry

/-- What is wrong with a base behind variants. -/
def checkCompound (r : Registry) (token : Text) (parsed : Token) : Option Finding :=
  if !r.isValid parsed.base || r.isCss parsed.base then some (.invalidClass parsed.base)
  else if r.isUtilityOnly parsed.base && !r.isValid token then
    some (.invalidVariant token
      ((Variant.firstRejected? r.variants parsed.variants).getD (parsed.variants.headD [])))
  else none

def checkParsed (r : Registry) (ignore : List NamePattern) (token : Text) (parsed : Token) :
    Option Finding :=
  if NamePattern.anyAccepts ignore parsed.base then none
  else if Arbitrary.isEmpty parsed.base then some (.invalidClass parsed.base)
  else if parsed.hasVariants then r.checkCompound token parsed
  else if r.isValid parsed.base then none
  else some (.invalidClass parsed.base)

def check (r : Registry) (ignore : List NamePattern) (token : Text) : Option Finding :=
  r.checkParsed ignore token (Token.parse token)

def checkAll (r : Registry) (ignore : List NamePattern) (tokens : List Text) : List Finding :=
  tokens.filterMap (r.check ignore)

end Registry

/-- A finding at the place where the token stands. -/
structure Diagnostic (α : Type) where
  finding : Finding
  location : α
deriving DecidableEq, Repr

namespace Diagnostic

def toJson (d : Diagnostic Json) : Json :=
  match d.finding with
  | .invalidClass name =>
    .record [("kind", .text d.finding.kind), ("className", .text name), ("location", d.location)]
  | .invalidVariant token variant =>
    .record [("kind", .text d.finding.kind), ("className", .text token),
      ("variant", .text variant), ("location", d.location)]

end Diagnostic

end ClassLint
