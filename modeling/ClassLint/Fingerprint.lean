/-
  ClassLint.Fingerprint

  What identifies the state that a class registry is built from.  A
  fingerprint is the digest of a stream of bytes, one section after the other.
  Every section begins with its name, every value of variable length with its
  length, so that different sections never give the same stream.
-/

import ClassLint.Config
import ClassLint.Digest
import ClassLint.Json.Printer

namespace ClassLint

/-- A file as it was seen: its path as it is stored, and the time of its last
    change in nanoseconds since the beginning of 1970. -/
structure FileStamp where
  path : List UInt8
  modified : Int
deriving DecidableEq, Repr, Inhabited

namespace Fingerprint

/-- One part of what a registry is built from. -/
inductive Section where
  /-- The stylesheets, in order. -/
  | files (files : List FileStamp)
  /-- A named list of patterns. -/
  | list (name : Text) (items : List Text)
  /-- The settings of the catalogue with the files it is made from, or its absence. -/
  | catalogue (source : Option (CatalogueSettings × List FileStamp))
  /-- The working directory. -/
  | cwd (path : List UInt8)
deriving DecidableEq, Repr

/-! ## The stream -/

/-- The lowest bytes of a number, the least significant first. -/
def littleEndian : Nat → Nat → List UInt8
  | 0, _ => []
  | width + 1, n => n.toUInt8 :: littleEndian width (n / 256)

/-- A length in 64 bits. -/
def length (n : Nat) : List UInt8 := littleEndian 8 n

/-- Bytes behind their length. -/
def sized (bytes : List UInt8) : List UInt8 := length bytes.length ++ bytes

/-- A time: a byte that tells whether it lies before 1970, and the distance in 128 bits. -/
def time (nanoseconds : Int) : List UInt8 :=
  (if 0 ≤ nanoseconds then 0 else 1) :: littleEndian 16 nanoseconds.natAbs

/-- Files behind their number. -/
def stamps (files : List FileStamp) : List UInt8 :=
  length files.length ++ files.flatMap fun f => sized f.path ++ time f.modified

def tag (name : String) : List UInt8 := Text.bytes name.toList

def Section.stream : Section → List UInt8
  | files fs => tag "files" ++ stamps fs
  | list name items =>
    tag "list" ++ sized (Text.bytes name) ++ length items.length
      ++ items.flatMap fun item => sized (Text.bytes item)
  | catalogue none => tag "catalogue" ++ [0]
  | catalogue (some (settings, inputs)) =>
    tag "catalogue" ++ 1 :: sized (Text.bytes settings.toJson.compact) ++ stamps inputs
  | cwd path => tag "cwd" ++ sized path

def stream (sections : List Section) : List UInt8 :=
  sections.flatMap Section.stream

def ofSections (sections : List Section) : Digest :=
  Digest.ofBytes (stream sections)

end Fingerprint

end ClassLint
