import QuestScript.Batch

/-!
# Options

The arguments of the command: paths of sources, switches, and options with a value. The value of
an option is the next argument, or stands behind an equals sign, or directly behind the letter of
a short option.

Values and paths are checked when the argument behind them has been recognised, so that an
unknown option is reported before a wrong value in front of it.
-/

namespace QuestScript

/-- What the command is asked to do. -/
structure Options where
  inputs : List String
  output : String
  environment : Option String
  listing : Bool
  header : Bool
  mode : Mode
  warnings : WarningsMode
  deriving DecidableEq, Inhabited

/-- Why the arguments are not accepted, or what is shown instead of running. -/
inductive OptionError where
  | missingInput
  | conflict
  | invalidValue
  | unknown
  | unneededValue
  | helpAsked
  | versionAsked
  deriving DecidableEq, Inhabited

namespace Options

/-- An option without a value. -/
inductive Switch where
  | console
  | localsOnly
  | listing
  | header
  deriving DecidableEq, Inhabited

/-- An option with a value. -/
inductive Setting where
  | output
  | environment
  | warnings
  deriving DecidableEq, Inhabited

/-- What an option stands for. -/
inductive Meaning where
  | switch (name : Switch)
  | setting (name : Setting)
  | help
  | version
  deriving DecidableEq, Inhabited

/-- The meaning of a long option, without its hyphens. -/
def Meaning.ofWord? (word : String) : Option Meaning :=
  match word with
  | "console" => some (.switch .console)
  | "locals-only" => some (.switch .localsOnly)
  | "listing" => some (.switch .listing)
  | "header" => some (.switch .header)
  | "output" => some (.setting .output)
  | "environment" => some (.setting .environment)
  | "warnings" => some (.setting .warnings)
  | "help" => some .help
  | "version" => some .version
  | _ => none

/-- The meaning of a short option. -/
def Meaning.ofLetter? (letter : Char) : Option Meaning :=
  match letter with
  | 'o' => some (.setting .output)
  | 'e' => some (.setting .environment)
  | 'h' => some .help
  | 'V' => some .version
  | _ => none

/-- The way of treating warnings with the given name. -/
def warningsMode? (word : String) : Option WarningsMode :=
  match word with
  | "ignore" => some .ignore
  | "normal" => some .normal
  | "strict" => some .asErrors
  | _ => none

/-- What has been given and checked. -/
structure Given where
  inputs : List String := []
  output : Option String := none
  environment : Option String := none
  warnings : Option WarningsMode := none
  switches : List Switch := []
  deriving DecidableEq, Inhabited

/-- What has been given and not been checked. -/
inductive Pending where
  | nothing
  | inputs (paths : List String)
  | setting (name : Setting) (value : Option String)
  deriving DecidableEq, Inhabited

/-- How far the arguments have been read. -/
structure State where
  given : Given := {}
  pending : Pending := .nothing
  /-- The rest are inputs. -/
  inputsOnly : Bool := false
  deriving DecidableEq, Inhabited

/-- Stores a value that may be given once. -/
def once {α : Type} (slot : Option α) (value : Except OptionError α) :
    Except OptionError (Option α) :=
  if slot.isSome then .error .conflict else value.map some

/-- A path may not be empty. -/
def checkPath (path : String) : Except OptionError String :=
  if path.isEmpty then .error .invalidValue else .ok path

/-- Sets an option. -/
def Given.assign (given : Given) (name : Setting) (value : String) : Except OptionError Given :=
  match name with
  | .output => do
    pure { given with output := ← once given.output (checkPath value) }
  | .environment => do
    pure { given with environment := ← once given.environment (checkPath value) }
  | .warnings => do
    let mode := (warningsMode? value).elim (.error .invalidValue) .ok
    pure { given with warnings := ← once given.warnings mode }

/-- Turns a switch on, which may be done once. -/
def Given.turnOn (given : Given) (name : Switch) : Except OptionError Given :=
  if given.switches.contains name then .error .conflict
  else .ok { given with switches := given.switches ++ [name] }

/-- Checks what is pending. -/
def State.settle (state : State) : Except OptionError State := do
  let given ←
    match state.pending with
    | .nothing => pure state.given
    | .inputs paths => do
      pure { state.given with inputs := state.given.inputs ++ (← paths.mapM checkPath) }
    | .setting _ none => .error .invalidValue
    | .setting name (some value) => state.given.assign name value
  pure { state with given, pending := .nothing }

/-- Takes an option with the value that is attached to it, if any. -/
def State.takeOption (state : State) (meaning : Meaning) (attached : Option String) :
    Except OptionError State := do
  match meaning, attached with
  | .setting name, none => pure { ← state.settle with pending := .setting name none }
  | .setting name, some value => do
    let state ← state.settle
    pure { state with given := ← state.given.assign name value }
  | _, some _ => .error .unneededValue
  | .switch name, none => do
    let state ← state.settle
    pure { state with given := ← state.given.turnOn name }
  | .help, none => do
    let _ ← state.settle
    .error .helpAsked
  | .version, none => do
    let _ ← state.settle
    .error .versionAsked

/-- Takes an input path. -/
def State.takeInput (state : State) (path : String) : Except OptionError State :=
  match state.pending with
  | .inputs paths => .ok { state with pending := .inputs (paths ++ [path]) }
  | _ => do pure { ← state.settle with pending := .inputs [path] }

/-- Takes an argument that is no option: the value that an option waits for, or an input. -/
def State.takePlain (state : State) (argument : String) : Except OptionError State :=
  match state.pending with
  | .setting name none => .ok { state with pending := .setting name (some argument) }
  | _ => state.takeInput argument

/-- Takes a long option, given without its hyphens. -/
def State.takeLong (state : State) (text : List Char) : Except OptionError State :=
  let attached := (text.dropWhile (· != '=')).tail?.map String.ofList
  match Meaning.ofWord? (String.ofList (text.takeWhile (· != '='))) with
  | some meaning => state.takeOption meaning attached
  | none => .error .unknown

/-- Takes a short option, given without its hyphen. Only options with a value may have something
behind their letter that is not looked at. -/
def State.takeShort (state : State) (letter : Char) (rest : List Char) :
    Except OptionError State :=
  match Meaning.ofLetter? letter, rest with
  | none, _ => .error .unknown
  | some (.setting name), [] => state.takeOption (.setting name) none
  | some (.setting name), '=' :: value =>
    state.takeOption (.setting name) (some (String.ofList value))
  | some (.setting name), value => state.takeOption (.setting name) (some (String.ofList value))
  | some meaning, _ => state.takeOption meaning none

/-- Takes one argument. -/
def State.take (state : State) (argument : String) : Except OptionError State :=
  if state.inputsOnly then state.takeInput argument
  else
    match argument.toList with
    | ['-', '-'] => .ok { state with inputsOnly := true }
    | '-' :: '-' :: text => state.takeLong text
    | '-' :: letter :: rest => state.takeShort letter rest
    | _ => state.takePlain argument

/-- The options that have been given. Compiling as console input and collecting local variables
exclude each other, and there has to be an input. -/
def Given.finish (given : Given) : Except OptionError Options :=
  let isOn := given.switches.contains
  if isOn .console && isOn .localsOnly then .error .conflict
  else if given.inputs.isEmpty then .error .missingInput
  else .ok {
    inputs := given.inputs
    output := given.output.getD "out"
    environment := given.environment
    listing := isOn .listing
    header := isOn .header
    mode := if isOn .console then .console else if isOn .localsOnly then .localsOnly else .script
    warnings := given.warnings.getD .normal }

/-- Reads the arguments of the command. -/
def ofArguments (arguments : List String) : Except OptionError Options := do
  let state ← arguments.foldlM State.take {}
  (← state.settle).given.finish

end Options

end QuestScript
