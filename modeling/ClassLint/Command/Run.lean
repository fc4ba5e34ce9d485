/-
  ClassLint.Command.Run

  What the commands do: a check writes what is wrong with each attribute, and a
  registry report is written to the output or to a file.  A file is written
  beside its place first and moved there when it is complete.
-/

import ClassLint.Command.Arguments
import ClassLint.Engine
import ClassLint.Expression.Codec
import ClassLint.Failure
import ClassLint.Report

namespace ClassLint

/-! ## Configuration -/

def SourceArguments.catalogueChoice (a : SourceArguments) : CatalogueChoice :=
  -- options of the design imply a catalogue
  if a.designConfig?.isSome || a.includeGenerated then
    .settings ⟨a.designConfig?, a.includeGenerated⟩
  else .enabled a.catalogue

/-- The configuration before the additions of the command line. -/
def SourceArguments.base (a : SourceArguments) (t : FileTree) : Except ConfigFault Config := do
  let config ← match a.config? with
    | some path => Config.load t path
    | none => .ok { cwd := t.home }
  .ok { config with cwd := a.cwd?.getD config.cwd }

def SourceArguments.toConfig (a : SourceArguments) (t : FileTree) : Except ConfigFault Config := do
  let base ← a.base t
  .ok (base.merge {
    stylesheets := a.css
    catalogue := a.catalogueChoice
    allowlist := a.allow
    blocklist := a.block
    ignore := a.ignore
    cwd := base.cwd })

/-! ## Checks -/

def Diagnostic.line (d : Diagnostic Nat) : Text :=
  '[' :: Text.ofNat d.location ++ "] ".toList ++ d.finding.message ++ " (".toList
    ++ d.finding.kind ++ [')', '\n']

def Diagnostic.numbered (d : Diagnostic Nat) : Diagnostic Json :=
  ⟨d.finding, .ofNat d.location⟩

def OutputFormat.render (format : OutputFormat) (ds : List (Diagnostic Nat)) : Text :=
  match format with
  | text => ds.flatMap Diagnostic.line
  | json => (Json.array (ds.map fun d => d.numbered.toJson)).pretty ++ ['\n']

inductive Attribute where
  | text (value : Text)
  | expression (e : Expression)
deriving Inhabited

def Attribute.candidates (mode : ExtractMode) : Attribute → OrderedSet Text
  | text value => Candidates.ofText value
  | expression e => Candidates.ofExpression mode e

/-- The diagnostics of attributes, each with the number of its attribute. -/
def checkAttributes (m : Moment) (c : Config) (mode : ExtractMode) :
    Engine → Nat → List Attribute → List (Diagnostic Nat)
  | _, _, [] => []
  | e, number, first :: rest =>
    let (findings, e) := e.checkTokens m c (first.candidates mode)
    findings.map (fun finding => ⟨finding, number⟩)
      ++ checkAttributes m c mode e (number + 1) rest

/-- The attributes of a check: the values of its arguments, or the expressions
    that its input holds. -/
def CheckArguments.attributes (a : CheckArguments) (input : Text) :
    Except Failure (List Attribute) :=
  if a.fromInput then
    match (Json.parse? input).bind Expression.manyOfJson? with
    | some es => .ok (es.map .expression)
    | none => .error .json
  else .ok (a.values.map .text)

def runCheck (a : CheckArguments) (m : Moment) (input : Text) :
    Except Failure (List (Diagnostic Nat) × Text) := do
  let config ← (a.source.toConfig m.tree).mapError .config
  let attributes ← a.attributes input
  let diagnostics := checkAttributes m config a.mode .standard 0 attributes
  .ok (diagnostics, a.format.render diagnostics)

/-! ## Reports -/

/-- Where a file is written before it is moved to its place. -/
def Path.draft (p : Path) : Path := p.withExtension "tmp".toList

/-- Make or empty a file, fill it, and make it last. -/
def FileTree.writeThrough (t : FileTree) (device : Device) (p : Path) (content : ByteArray) :
    Except FileFault Unit × FileTree :=
  match Device.pass device.create? (t.filePlace p) with
  | .error fault => (.error fault, t)
  | .ok place =>
    -- from here on a failure leaves the file as far as it has come
    let created := t.put place (.file .empty t.now)
    match device.write? with
    | some (taken, fault) =>
      (.error fault, created.put place (.file (content.extract 0 taken) t.now))
    | none =>
      let filled := created.put place (.file content t.now)
      match device.sync? with
      | some fault => (.error fault, filled)
      | none => (.ok (), filled)

/-- Write a file beside its place and move it there. -/
def FileTree.writeWhole (t : FileTree) (device : Device) (p : Path) (content : ByteArray) :
    Except FileFault Unit × FileTree :=
  match t.writeThrough device p.draft content with
  | (.error fault, t) => (.error fault, t)
  | (.ok (), written) =>
    match Device.pass device.rename? (written.rename p.draft p) with
    -- the draft stays where it was written
    | .error fault => (.error fault, written)
    | .ok moved => (.ok (), moved)

def FileTree.writeWithDirectories (t : FileTree) (device : Device) (p : Path)
    (content : ByteArray) : Except FileFault Unit × FileTree :=
  match p.parent? with
  | none => t.writeWhole device p content
  | some parent =>
    match t.ensureDirectories device parent with
    -- what was made of the directories stays
    | (.error fault, t) => (.error fault, t)
    | (.ok (), t) => t.writeWhole device p content

/-- Report on the registry of a configuration; the report, the text that is
    written to the output, and the files afterwards. -/
def runRegistry (a : RegistryArguments) (m : Moment) (generatedAt : Timestamp)
    (device : Device := .sound) : Except Failure (Report × Text) × FileTree :=
  match a.source.toConfig m.tree with
  | .error fault => (.error (.config fault), m.tree)
  | .ok config =>
    let report := Report.ofRegistry generatedAt (Engine.standard.registry m config).1.value
    match a.output? with
    | none => (.ok (report, report.render ++ ['\n']), m.tree)
    | some path =>
      match m.tree.writeWithDirectories device path (Text.toBytes report.render) with
      | (.error fault, t) => (.error (.file fault), t)
      | (.ok (), t) => (.ok (report, []), t)

/-! ## The program -/

structure RunResult where
  /-- The exit code. -/
  code : UInt8
  output : Text
  /-- What is written beside the output, line by line. -/
  notes : List Text
  /-- The files afterwards. -/
  tree : FileTree

def UsageFault.message : UsageFault → Text
  | displayHelp | missingCommand =>
    "usage: class-validator-cli check|registry [options]".toList
  | displayVersion => "class-validator-cli ".toList ++ Report.programVersion
  | invalidCommand => "error: there is no such command".toList
  | unknownArgument => "error: an argument fits nowhere".toList
  | invalidValue => "error: an option has a wrong value or none".toList
  | tooManyValues => "error: an option takes no value".toList
  | conflict => "error: an option is given twice or excludes another".toList
  | missingArgument => "error: there is nothing to check".toList

/-- The end of a run whose arguments ask for nothing that can be done. -/
def UsageFault.result (fault : UsageFault) (t : FileTree) : RunResult :=
  match fault with
  -- help and version are no failure
  | .displayHelp | .displayVersion => ⟨0, fault.message ++ ['\n'], [], t⟩
  | _ => ⟨2, [], [fault.message], t⟩

def writtenNote (report : Report) (path : Path) : Text :=
  "Wrote registry report with ".toList ++ Text.ofNat report.classes.size ++ " classes to ".toList
    ++ path.text

def failureNotes (what : String) (fault : Failure) : List Text :=
  [("Error: " ++ what).toList, [], "Caused by:".toList, "    ".toList ++ fault.message]

def Command.run (command : Command) (m : Moment) (generatedAt : Timestamp) (input : Text) :
    RunResult :=
  match command with
  | check a =>
    match runCheck a m input with
    | .error fault =>
      ⟨1, [], failureNotes "class check failed" fault, m.tree⟩
    | .ok (diagnostics, output) => ⟨if diagnostics.isEmpty then 0 else 1, output, [], m.tree⟩
  | registry a =>
    match runRegistry a m generatedAt with
    | (.error fault, t) =>
      ⟨1, [], failureNotes "failed to build class registry" fault, t⟩
    | (.ok (report, output), t) =>
      ⟨0, output, a.output?.toList.map (writtenNote report), t⟩

/-- Run the program with its arguments, and the configuration file that the
    environment names. -/
def runProgram (environment? : Option Text) (arguments : List Text) (m : Moment)
    (generatedAt : Timestamp) (input : Text) : RunResult :=
  match Arguments.read environment? arguments with
  | .error fault => fault.result m.tree
  | .ok command => command.run m generatedAt input

end ClassLint
