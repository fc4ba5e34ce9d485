/-
  ClassLint.Config.File

  Configuration and design files.  The extension of a file's name tells its
  format.
-/

import ClassLint.Config
import ClassLint.Design
import ClassLint.FileTree
import ClassLint.Yaml

namespace ClassLint

inductive ConfigFault where
  | unreadable (path : Path) (cause : FileFault)
  /-- The text is not of the format, or has not the shape of a configuration. -/
  | malformedJson (path : Path)
  | malformedYaml (path : Path)
  /-- The extension tells no format. -/
  | unsupported (path : Path)
deriving DecidableEq, Repr, Inhabited

/-- The wording of a fault.  Of a malformed file it names the file alone. -/
def ConfigFault.message : ConfigFault → Text
  | unreadable path cause =>
    "Failed to read config file ".toList ++ path.text ++ ": ".toList ++ cause.message
  | malformedJson path => "Failed to parse JSON config ".toList ++ path.text
  | malformedYaml path => "Failed to parse YAML config ".toList ++ path.text
  | unsupported path =>
    "Unsupported config file format: ".toList ++ path.text
      ++ ". Use .yaml, .yml, or .json".toList

def FileTree.readConfig (t : FileTree) (p : Path) : Except ConfigFault Text :=
  match t.read p with
  | .ok text => .ok text
  | .error cause => .error (.unreadable p cause)

open Document (Decode)

/-- Load a file; `decode` is told whether the format lists fields by position. -/
def FileTree.load {α : Type} (t : FileTree) (decode : Bool → Document → Decode α) (p : Path) :
    Except ConfigFault α := do
  let extension := p.extension?
  if extension = some "yaml".toList ∨ extension = some "yml".toList then
    match (Yaml.parse? (← t.readConfig p)).bind (·.decode? (decode false)) with
    | some value => .ok value
    | none => .error (.malformedYaml p)
  else if extension = some "json".toList then
    match (Json.read? Document.form (← t.readConfig p)).bind (·.decode? (decode true)) with
    | some value => .ok value
    | none => .error (.malformedJson p)
  else .error (.unsupported p)

def FileTree.home (t : FileTree) : Path :=
  ⟨'/' :: Text.join ['/'] t.workingDirectory⟩

def Design.load (t : FileTree) (p : Path) : Except ConfigFault Design :=
  t.load Design.decode p

/-- Load a configuration.  Its working directory starts from the directory of
    the file. -/
def Config.load (t : FileTree) (p : Path) : Except ConfigFault Config := do
  let config ← t.load (fun byPosition d => decode byPosition t.home d) p
  if config.cwd.isAbsolute then .ok config
  else .ok { config with cwd := ((p.parent?).getD ⟨['.']⟩).join config.cwd }

end ClassLint
