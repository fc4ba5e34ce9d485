/-
  ClassLint.Command.Arguments

  The arguments of the command line.

  A command is followed by options.  An option takes no value, one value or as
  many as follow; its first value may be attached to it.  Options are complete
  when the next one starts or the arguments end, and only then are their values
  looked at, so that an argument that fits nowhere is reported before the wrong
  value of the option before it.
-/

import ClassLint.Config
import ClassLint.Expression

namespace ClassLint

inductive OutputFormat where
  | text
  | json
deriving DecidableEq, Repr, Inhabited

structure SourceArguments where
  config? : Option Path := none
  cwd? : Option Path := none
  css : List Text := []
  allow : List Text := []
  block : List Text := []
  ignore : List Text := []
  catalogue : Bool := false
  designConfig? : Option Path := none
  includeGenerated : Bool := false
deriving DecidableEq, Repr, Inhabited

structure CheckArguments where
  source : SourceArguments
  /-- The attribute values to check. -/
  values : List Text
  /-- Expressions are read from the input instead. -/
  fromInput : Bool
  mode : ExtractMode
  format : OutputFormat
deriving DecidableEq, Repr

structure RegistryArguments where
  source : SourceArguments
  /-- The file to write the report to. -/
  output? : Option Path
deriving DecidableEq, Repr

inductive Command where
  | check (arguments : CheckArguments)
  | registry (arguments : RegistryArguments)
deriving DecidableEq, Repr

inductive UsageFault where
  | displayHelp
  | displayVersion
  /-- There is no argument at all. -/
  | missingCommand
  | invalidCommand
  | unknownArgument
  | invalidValue
  | tooManyValues
  /-- Two options exclude each other, or one is given twice. -/
  | conflict
  | missingArgument
deriving DecidableEq, Repr, Inhabited

namespace Arguments

/-! ## Options -/

inductive OptionName where
  | config
  | cwd
  | css
  | allow
  | block
  | ignore
  | catalogue
  | designConfig
  | includeGenerated
  | classes
  | stdinExpr
  | mode
  | format
  | output
  | help
deriving DecidableEq, Repr

/-- The name behind two hyphens. -/
def OptionName.long : OptionName → String
  | config => "config"
  | cwd => "cwd"
  | css => "css"
  | allow => "allow"
  | block => "block"
  | ignore => "ignore"
  | catalogue => "catalogue"
  | designConfig => "design-config"
  | includeGenerated => "include-generated"
  | classes => "class"
  | stdinExpr => "stdin-expr"
  | mode => "mode"
  | format => "format"
  | output => "output"
  | help => "help"

/-- The letter behind one hyphen. -/
def OptionName.short? : OptionName → Option Char
  | config => some 'c'
  | css => some 's'
  | allow => some 'a'
  | block => some 'b'
  | ignore => some 'x'
  | format => some 'f'
  | output => some 'o'
  | help => some 'h'
  | _ => none

inductive Arity where
  | none
  | one
  | many
deriving DecidableEq, Repr

def OptionName.arity : OptionName → Arity
  | catalogue | includeGenerated | stdinExpr | help => .none
  | css | allow | block | ignore | classes => .many
  | config | cwd | designConfig | mode | format | output => .one

def OptionName.accepts (name : OptionName) (value : Text) : Bool :=
  match name with
  | config | cwd | designConfig | output => !value.isEmpty
  | mode => ["keys", "values"].any (·.toList == value)
  | format => ["text", "json"].any (·.toList == value)
  | _ => true

/-- The options that say where class names come from. -/
def sourceOptions : List OptionName :=
  [.config, .cwd, .css, .allow, .block, .ignore, .catalogue, .designConfig, .includeGenerated]

def checkOptions : List OptionName :=
  sourceOptions ++ [.classes, .stdinExpr, .mode, .format, .help]

def registryOptions : List OptionName := sourceOptions ++ [.output, .help]

/-! ## Reading -/

/-- The options read so far. -/
structure Reading where
  /-- Complete options with their values, the latest first. -/
  found : List (OptionName × List Text) := []
  /-- The last option that takes values, with those it has. -/
  pending : Option (OptionName × List Text) := none
  /-- The last option takes more values. -/
  isOpen : Bool := false
deriving Repr, Inhabited

/-- Complete an option.  It has to have values if it takes any, may be given
    twice only if it takes many, and has to accept its values. -/
def Reading.complete (r : Reading) (name : OptionName) (values : List Text) :
    Except UsageFault Reading :=
  if name.arity ≠ .none ∧ values.isEmpty then .error .invalidValue
  else if name = .help then .error .displayHelp
  else if name.arity ≠ .many ∧ r.found.any (·.1 == name) then .error .conflict
  else if !values.all name.accepts then .error .invalidValue
  else .ok { found := (name, values) :: r.found }

/-- Complete the last option that takes values. -/
def Reading.settle (r : Reading) : Except UsageFault Reading :=
  match r.pending with
  | none => .ok { r with isOpen := false }
  | some (name, values) => { r with pending := none }.complete name values

/-- Start an option, which may have a value attached to it. -/
def Reading.start (r : Reading) (name : OptionName) (attached : Option Text) :
    Except UsageFault Reading :=
  match name.arity, attached with
  | .none, some _ => .error .tooManyValues
  | .none, none => do (← r.settle).complete name []
  | _, some value => do (← r.settle).complete name [value]
  | _, none => do .ok { ← r.settle with pending := some (name, []), isOpen := true }

def Reading.addValue (r : Reading) (value : Text) : Except UsageFault Reading :=
  match r.isOpen, r.pending with
  | true, some (name, values) =>
    .ok { r with pending := some (name, values ++ [value]), isOpen := name.arity == .many }
  | _, _ => .error .unknownArgument

/-- A name and the value attached to it behind an equals sign. -/
def splitAttached (t : Text) : Text × Option Text :=
  match t.dropWhile (· != '=') with
  | '=' :: value => (t.takeWhile (· != '='), some value)
  | _ => (t, none)

def Reading.argument (options : List OptionName) (r : Reading) (argument : Text) :
    Except UsageFault Reading :=
  match argument with
  | '-' :: '-' :: rest =>
    let (name, attached) := splitAttached rest
    match options.find? fun o => o.long.toList == name with
    | some o => r.start o attached
    | none => .error .unknownArgument
  | '-' :: letter :: rest =>
    match options.find? fun o => o.short? == some letter with
    | none => .error .unknownArgument
    | some o =>
      if o.arity = .none then r.start o none
      else if rest.isEmpty then r.start o none
      else r.start o (some ((['='].isPrefixOf? rest).getD rest))
  | value => r.addValue value

/-- Read arguments to their end.  Behind `--` no argument fits. -/
def Reading.arguments (options : List OptionName) (r : Reading) :
    List Text → Except UsageFault Reading
  | [] => r.settle
  | argument :: rest =>
    if argument = ['-', '-'] then
      if rest.isEmpty then r.settle else .error .unknownArgument
    else
      match r.argument options argument with
      | .error fault => .error fault
      | .ok r => r.arguments options rest

/-! ## Meaning -/

def Reading.has (r : Reading) (name : OptionName) : Bool := r.found.any (·.1 == name)

def Reading.values (r : Reading) (name : OptionName) : List Text :=
  (r.found.reverse.filter (·.1 == name)).flatMap (·.2)

def Reading.path? (r : Reading) (name : OptionName) : Option Path :=
  (r.values name).head?.map Path.mk

def Reading.source (r : Reading) : SourceArguments where
  config? := r.path? .config
  cwd? := r.path? .cwd
  css := r.values .css
  allow := r.values .allow
  block := r.values .block
  ignore := r.values .ignore
  catalogue := r.has .catalogue
  designConfig? := r.path? .designConfig
  includeGenerated := r.has .includeGenerated

/-- The configuration file that the environment names, unless an option does. -/
def Reading.addEnvironment (r : Reading) (config? : Option Text) : Except UsageFault Reading :=
  match config? with
  | some value => if r.has .config then .ok r else r.complete .config [value]
  | none => .ok r

def readOptions (options : List OptionName) (environment? : Option Text) (arguments : List Text) :
    Except UsageFault Reading := do
  (← ({} : Reading).arguments options arguments).addEnvironment environment?

/-- The arguments of a check.  It needs attribute values or expressions, and not both. -/
def readCheck (environment? : Option Text) (arguments : List Text) :
    Except UsageFault Command := do
  let r ← readOptions checkOptions environment? arguments
  if r.has .stdinExpr && r.has .classes then .error .conflict
  else if !r.has .stdinExpr && !r.has .classes then .error .missingArgument
  else
    .ok (.check {
      source := r.source
      values := r.values .classes
      fromInput := r.has .stdinExpr
      mode := if r.values .mode = ["values".toList] then .values else .keys
      format := if r.values .format = ["json".toList] then .json else .text })

def readRegistry (environment? : Option Text) (arguments : List Text) :
    Except UsageFault Command := do
  let r ← readOptions registryOptions environment? arguments
  .ok (.registry ⟨r.source, r.path? .output⟩)

def commandNames : List Text := ["check", "registry", "help"].map String.toList

/-- A name of a command to be explained; no command has commands of its own. -/
def readHelp : List Text → UsageFault
  | [] => .displayHelp
  | [name] => if commandNames.contains name then .displayHelp else .invalidCommand
  | _ => .invalidCommand

def readLeading : Text → UsageFault
  | '-' :: '-' :: rest =>
    let (name, attached) := splitAttached rest
    let answer : Option UsageFault :=
      if name = "help".toList then some .displayHelp
      else if name = "version".toList then some .displayVersion
      else none
    match answer, attached with
    | none, _ => .unknownArgument
    | some _, some _ => .tooManyValues
    | some fault, none => fault
  | '-' :: 'h' :: _ => .displayHelp
  | '-' :: 'V' :: _ => .displayVersion
  | '-' :: _ :: _ => .unknownArgument
  | _ => .invalidCommand

/-- Read the arguments of the program, and the configuration file that the
    environment names. -/
def read (environment? : Option Text) : List Text → Except UsageFault Command
  | [] => .error .missingCommand
  | first :: rest =>
    if first = "check".toList then readCheck environment? rest
    else if first = "registry".toList then readRegistry environment? rest
    else if first = "help".toList then .error (readHelp rest)
    else if first = ['-', '-'] then
      match rest with
      | [] => .error .missingCommand
      | second :: _ =>
        .error (if commandNames.contains second then .unknownArgument else .invalidCommand)
    else .error (readLeading first)

end Arguments

end ClassLint
