/-
  ClassLint.Stylesheet.Clean

  A stylesheet without what its selectors cannot depend on: a block comment
  becomes a space, a line comment a line break, and a quoted string loses its
  body and keeps its quotes.  Line comments exist only in the dialects that
  have them.

  The scanner is always in one of four modes, and every character either
  changes the mode or is passed through.
-/

import ClassLint.Text

namespace ClassLint.Stylesheet

/-- What the character under the scanner belongs to. -/
inductive Region where
  | code
  /-- A block comment; the flag says that the character before is a star that may end it. -/
  | blockComment (star : Bool)
  | lineComment
  /-- A string between two of these quotes; the flag says that a backslash stands before. -/
  | quoted (quote : Char) (escaped : Bool)
deriving DecidableEq, Repr, Inhabited

/-- Clean the rest of a text in the given region; `out` is what was kept before,
    last first. -/
def cleanFrom (lineComments : Bool) (out : Text) : Region → Text → Text
  -- comments and strings that are open at the end of the text end with it
  | .code, [] => out.reverse
  | .code, '/' :: '*' :: rest => cleanFrom lineComments out (.blockComment false) rest
  | .code, c :: rest =>
    if lineComments && c == '/' && rest.head? == some '/' then
      cleanFrom lineComments out .lineComment rest
    else if c == '"' || c == '\'' then cleanFrom lineComments out (.quoted c false) rest
    else cleanFrom lineComments (c :: out) .code rest
  | .blockComment _, [] => (' ' :: out).reverse
  | .blockComment star, c :: rest =>
    if star && c == '/' then cleanFrom lineComments (' ' :: out) .code rest
    else cleanFrom lineComments out (.blockComment (c == '*')) rest
  | .lineComment, [] => ('\n' :: out).reverse
  | .lineComment, c :: rest =>
    if c == '\n' then cleanFrom lineComments ('\n' :: out) .code rest
    else cleanFrom lineComments out .lineComment rest
  | .quoted quote _, [] => (quote :: quote :: out).reverse
  | .quoted quote escaped, c :: rest =>
    if escaped then cleanFrom lineComments out (.quoted quote false) rest
    else if c == '\\' then cleanFrom lineComments out (.quoted quote true) rest
    else if c == quote then cleanFrom lineComments (quote :: quote :: out) .code rest
    else cleanFrom lineComments out (.quoted quote false) rest

/-- A stylesheet without comments and string bodies. -/
def clean (lineComments : Bool) (source : Text) : Text :=
  cleanFrom lineComments [] .code source

end ClassLint.Stylesheet
