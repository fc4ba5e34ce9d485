/-
  ClassLint.Text

  Class names, selectors, patterns and paths are lists of Unicode characters.
  This file holds what all of them share: the blank and control characters,
  trimming, splitting at a class of characters, and the bytes a text is stored
  as.  Everything here keeps order and loses nothing but the separators.
-/

namespace ClassLint

abbrev Text := List Char

namespace Text

/-! ## Character classes -/

/-- Closed ranges of the characters with the property White_Space, ascending and apart. -/
def blankRanges : List (Nat × Nat) :=
  [(0x09, 0x0D), (0x20, 0x20), (0x85, 0x85), (0xA0, 0xA0), (0x1680, 0x1680), (0x2000, 0x200A),
   (0x2028, 0x2029), (0x202F, 0x202F), (0x205F, 0x205F), (0x3000, 0x3000)]

/-- A blank character separates words: it has the property White_Space. -/
def isBlank (c : Char) : Bool :=
  blankRanges.any fun r => r.1 ≤ c.toNat && c.toNat ≤ r.2

def isControl (c : Char) : Bool :=
  c.toNat ≤ 0x1F || (0x7F ≤ c.toNat && c.toNat ≤ 0x9F)

/-- A letter, digit, underscore or hyphen of ASCII: what utility names are spelled with. -/
def isNameChar (c : Char) : Bool :=
  c.isAlphanum || c == '_' || c == '-'

/-! ## Trimming and splitting -/

def trim (t : Text) : Text :=
  ((t.dropWhile isBlank).reverse.dropWhile isBlank).reverse

def extendFirst (c : Char) : List Text → List Text
  | [] => [[c]]
  | piece :: rest => (c :: piece) :: rest

/-- The pieces between the separating characters, empty ones included.  There is
    always one piece more than there are separators. -/
def split (separates : Char → Bool) (t : Text) : List Text :=
  t.foldr (fun c pieces => if separates c then [] :: pieces else extendFirst c pieces) [[]]

/-- The maximal runs of characters that are not blank, in order. -/
def words (t : Text) : List Text :=
  (split isBlank t).filter fun w => !w.isEmpty

def join (separator : Text) : List Text → Text
  | [] => []
  | [piece] => piece
  | piece :: rest => piece ++ separator ++ join separator rest

def substitute (c : Char) (value : Text) (t : Text) : Text :=
  t.flatMap fun d => if d == c then value else [d]

/-! ## Numbers and bytes -/

def ofNat (n : Nat) : Text :=
  Nat.toDigits 10 n

def bytes (t : Text) : List UInt8 :=
  t.flatMap String.utf8EncodeChar

def byteLength (t : Text) : Nat :=
  t.foldr (fun c length => c.utf8Size + length) 0

/-- The text that a file's bytes hold, if they are valid UTF-8. -/
def ofBytes? (content : ByteArray) : Option Text :=
  (String.fromUTF8? content).map String.toList

def toBytes (t : Text) : ByteArray :=
  (String.ofList t).toUTF8

/-! ## Small laws -/

theorem split_nil (separates : Char → Bool) : split separates [] = [[]] := rfl

theorem split_cons (separates : Char → Bool) (c : Char) (t : Text) :
    split separates (c :: t) =
      if separates c then [] :: split separates t else extendFirst c (split separates t) := rfl

end Text

end ClassLint
