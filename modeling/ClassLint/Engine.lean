/-
  ClassLint.Engine

  An engine checks class attributes against the registry of a configuration.

  It remembers resolved files, registries, readings of tokens and the layer
  files of the last design.  A registry is made anew only when its fingerprint
  changes: the files with their times of change, the lists, the settings of the
  catalogue with the files it is made from, and the working directory.
-/

import ClassLint.Candidates
import ClassLint.Finding
import ClassLint.Fingerprint
import ClassLint.Registry.Cache
import ClassLint.Registry.Sources
import ClassLint.Resolution.Cache
import ClassLint.Token.Memo

namespace ClassLint

structure Engine where
  generator : Generator
  extractor : Extractor := .selectors
  files : ResolutionCache
  registries : SlotCache Digest Registry := .empty
  tokens : TokenMemo := .empty
  layers : Option LayerMemo := none

/-- What an engine sees of the world at a call: the files, and the time in
    milliseconds. -/
structure Moment where
  tree : FileTree
  now : Nat

namespace Engine

/-- An engine that remembers nothing yet; resolved files are reused for a time. -/
def fresh (generator : Generator) (lifetime : Nat) (extractor : Extractor := .selectors) :
    Engine where
  generator := generator
  extractor := extractor
  files := .empty lifetime

def defaultLifetime : Nat := 1000

def standard : Engine := fresh .design defaultLifetime

/-! ## Fingerprints -/

def listSections (c : Config) : List Fingerprint.Section :=
  [.list "allowlist".toList c.allowlist, .list "blocklist".toList c.blocklist,
    .list "ignore".toList c.ignore]

def catalogueSection (c : Config) (inputs : List FileStamp) : Fingerprint.Section :=
  .catalogue (c.catalogue.settings?.map fun s => (s, inputs))

def cwdSection (c : Config) : Fingerprint.Section := .cwd (Text.bytes c.cwd.text)

/-- What identifies the registry of a configuration with its files. -/
def keySections (c : Config) (files : List ResolvedFile) (inputs : List FileStamp) :
    List Fingerprint.Section :=
  .files (files.map (·.stamp)) :: listSections c ++ [catalogueSection c inputs, cwdSection c]

/-- What identifies a configuration without its files. -/
def slotSections (c : Config) : List Fingerprint.Section :=
  .list "stylesheets".toList c.stylesheets :: listSections c
    ++ [catalogueSection c [], cwdSection c]

/-- The files among some paths that are there. -/
def stampsOf (t : FileTree) (paths : List Path) : List FileStamp :=
  paths.filterMap fun p =>
    match t.stat p with
    | .ok node => some ⟨Text.bytes p.text, node.modified⟩
    | .error _ => none

/-! ## Registries -/

def catalogueInputs (e : Engine) (t : FileTree) (c : Config) : List Path × Option LayerMemo :=
  match c.catalogue.settings? with
  | some s => e.generator.inputs e.layers t s c.cwd
  | none => ([], e.layers)

def request (c : Config) (files : List ResolvedFile) : RegistryRequest where
  files := files.map (·.path)
  settings? := c.catalogue.settings?
  allowlist := c.allowlist
  blocklist := c.blocklist
  ignore := c.ignore
  cwd := c.cwd

def registry (e : Engine) (m : Moment) (c : Config) : Shared Registry × Engine :=
  let (resolved, files) := e.files.resolve m.now m.tree c.stylesheets c.cwd
  let (inputs, layers) := e.catalogueInputs m.tree c
  let key := Fingerprint.ofSections (keySections c resolved.value (stampsOf m.tree inputs))
  let slot := Fingerprint.ofSections (slotSections c)
  let (found, registries) := e.registries.get slot key fun _ =>
    (request c resolved.value).build e.generator m.tree (some key) e.extractor
  (found, { e with files, layers, registries })

/-! ## Checking -/

def readings (memo : TokenMemo) : List Text → List (Text × Token) × TokenMemo
  | [] => ([], memo)
  | token :: rest =>
    let (parsed, memo) := memo.parse token
    let (others, memo) := readings memo rest
    ((token, parsed.value) :: others, memo)

def checkTokens (e : Engine) (m : Moment) (c : Config) (tokens : OrderedSet Text) :
    List Finding × Engine :=
  -- without tokens no registry is asked for
  if tokens.isEmpty then ([], e)
  else
    let (r, e) := e.registry m c
    let (parsed, memo) := readings e.tokens tokens.toList
    (parsed.filterMap fun p => r.value.checkParsed r.value.ignore p.1 p.2,
      { e with tokens := memo })

def checkText (e : Engine) (m : Moment) (c : Config) (value : Text) : List Finding × Engine :=
  e.checkTokens m c (Candidates.ofText value)

def checkExpression (e : Engine) (m : Moment) (c : Config) (mode : ExtractMode)
    (x : Expression) : List Finding × Engine :=
  e.checkTokens m c (Candidates.ofExpression mode x)

def clear (e : Engine) : Engine :=
  -- the layer files of the last design stay
  { e with files := e.files.clear, registries := e.registries.clear, tokens := e.tokens.clear }

end Engine

end ClassLint
