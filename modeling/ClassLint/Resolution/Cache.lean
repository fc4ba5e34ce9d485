/-
  ClassLint.Resolution.Cache

  Remembered resolutions.  A list of files is given out again for the same
  patterns and working directory as long as it is younger than a set time;
  patterns that cannot be resolved stand for no file.
-/

import ClassLint.Resolution
import ClassLint.Shared

namespace ClassLint

structure CachedResolution where
  patterns : List Text
  cwd : Path
  /-- When it was made. -/
  resolvedAt : Nat
  files : Shared (List ResolvedFile)

structure ResolutionCache where
  /-- How long a resolution is given out again; times are in milliseconds. -/
  lifetime : Nat
  entries : List CachedResolution
  /-- The number of instances made. -/
  made : Nat

namespace ResolutionCache

def empty (lifetime : Nat) : ResolutionCache := ⟨lifetime, [], 0⟩

/-- The entry is for these patterns in this directory, however it is spelled. -/
def isFor (patterns : List Text) (cwd : Path) (entry : CachedResolution) : Bool :=
  entry.patterns == patterns && entry.cwd.same cwd

/-- The resolution that is still young enough. -/
def lookup? (cache : ResolutionCache) (now : Nat) (patterns : List Text) (cwd : Path) :
    Option (Shared (List ResolvedFile)) :=
  match cache.entries.find? (isFor patterns cwd) with
  | some entry => if now - entry.resolvedAt < cache.lifetime then some entry.files else none
  | none => none

/-- The files that patterns stand for, or none if they cannot be resolved. -/
def filesNow (t : FileTree) (patterns : List Text) (cwd : Path) : List ResolvedFile :=
  match Resolution.files t patterns cwd with
  | .ok files => files
  | .error _ => []

/-- A list of files under a new number. -/
def share (cache : ResolutionCache) (files : List ResolvedFile) :
    Shared (List ResolvedFile) × ResolutionCache :=
  (⟨cache.made, files⟩, { cache with made := cache.made + 1 })

def resolve (cache : ResolutionCache) (now : Nat) (t : FileTree) (patterns : List Text)
    (cwd : Path) : Shared (List ResolvedFile) × ResolutionCache :=
  -- an empty list is not worth remembering
  if patterns.isEmpty then cache.share []
  else match cache.lookup? now patterns cwd with
    | some files => (files, cache)
    | none =>
      let (files, cache) := cache.share (filesNow t patterns cwd)
      let others := cache.entries.filter fun entry => !isFor patterns cwd entry
      (files, { cache with entries := ⟨patterns, cwd, now, files⟩ :: others })

/-- Forget every resolution.  Instances made before keep their numbers. -/
def clear (cache : ResolutionCache) : ResolutionCache := { cache with entries := [] }

end ResolutionCache

end ClassLint
