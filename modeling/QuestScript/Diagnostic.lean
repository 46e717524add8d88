import QuestScript.Binary32.Decimal
import QuestScript.Token

/-!
# Diagnostics

Problems in a script are reported to a log, which counts and records them. The log can be told
to ignore warnings or to take them for errors, and to take errors for warnings for a while.
-/

namespace QuestScript

/-- What can be wrong with a script. -/
inductive Problem where
  | syntaxError
  | unexpectedInteger
  | unexpectedFloat
  | unexpectedName
  | unexpectedKeyword
  | unexpectedSpecial
  | unexpectedToken
  | newlineInString
  | strayString
  | incompleteString
  | straySpecial
  | invalidOperator (written : String) (meant : Comparison)
  | junk
  | integerAsString
  | extraArgument
  | strayReference
  | wordAsNumber (value : Binary32)
  | missingExpression
  | malformedExpression
  | missingClosing
  | localsForbidden
  | unknownVariable
  | strayElse
  | strayEndif
  | strayBegin
  | strayOpening
  | extraAfterElse
  | elseifWithoutIf
  | endifWithoutIf
  | redeclaration
  | extraAfterDeclaration
  | integerName
  | specialBeforeBegin
  | extraAfterScriptName (name : String)
  | scriptNamesDiffer (name : String)
  deriving DecidableEq

/-- The wording of a problem. -/
def Problem.message : Problem → String
  | .syntaxError => "Syntax error"
  | .unexpectedInteger => "Unexpected numeric value"
  | .unexpectedFloat => "Unexpected floating point value"
  | .unexpectedName => "Unexpected name"
  | .unexpectedKeyword => "Unexpected keyword"
  | .unexpectedSpecial => "Unexpected special token"
  | .unexpectedToken => "Unexpected token"
  | .newlineInString => "String contains newline"
  | .strayString => "Stray string argument"
  | .incompleteString => "Incomplete string or name"
  | .straySpecial => "Stray special character at start of line"
  | .invalidOperator written meant =>
    "Invalid operator " ++ written ++ ", treating it as " ++ meant.spelling
  | .junk => "Ignoring found junk"
  | .integerAsString => "Treating integer argument as a string"
  | .extraArgument => "Extra argument"
  | .strayReference => "Stray explicit reference"
  | .wordAsNumber value => "Parsing a non-variable string as a number: " ++ value.general
  | .missingExpression => "Missing expression"
  | .malformedExpression => "Syntax error in expression"
  | .missingClosing => "Missing closing parenthesis"
  | .localsForbidden => "Local variables cannot be declared in this context"
  | .unknownVariable => "Unknown variable"
  | .strayElse => "Stray else"
  | .strayEndif => "Stray endif"
  | .strayBegin => "Stray begin"
  | .strayOpening => "Stray '[' or '(' at the end of the line"
  | .extraAfterElse => "Extra text after else"
  | .elseifWithoutIf => "elseif without matching if"
  | .endifWithoutIf => "endif without matching if/elseif"
  | .redeclaration => "Local variable re-declaration"
  | .extraAfterDeclaration => "Extra text after local variable declaration"
  | .integerName => "Integer is not a valid variable name"
  | .specialBeforeBegin => "Stray special character before begin statement"
  | .extraAfterScriptName name => "Stray string (" ++ name ++ ") after script name"
  | .scriptNamesDiffer name => "Names for script " ++ name ++ " do not match"

/-- How serious a diagnostic is. -/
inductive Severity where
  | warning
  | error
  deriving DecidableEq, Inhabited

/-- A recorded problem, with its place if it has one and the label of the log at that time. -/
structure Diagnostic where
  severity : Severity
  message : String
  location : Option Location
  label : Option String
  deriving DecidableEq, Inhabited

/-- The diagnostic on one line. -/
def Diagnostic.text (d : Diagnostic) : String :=
  (match d.severity with
    | .warning => "Warning: "
    | .error => "Error: ") ++
  (match d.label with
    | some label => label ++ " "
    | none => "") ++
  (match d.location with
    | some location => location.text ++ ": "
    | none => "") ++
  d.message

/-- What becomes of warnings. -/
inductive WarningsMode where
  | ignore
  | normal
  | asErrors
  deriving DecidableEq, Inhabited

/-- Counts and records the problems of one or more compilations. -/
structure Log where
  warnings : Nat := 0
  errors : Nat := 0
  mode : WarningsMode := .normal
  downgrade : Bool := false
  label : Option String := none
  entries : List Diagnostic := []
  deriving DecidableEq, Inhabited

namespace Log

/-- No error has been counted. -/
def isGood (log : Log) : Bool :=
  log.errors == 0

/-- Counts and records one diagnostic. -/
def record (log : Log) (severity : Severity) (message : String) (location : Option Location) :
    Log :=
  { log with
    warnings := log.warnings + (if severity = .warning then 1 else 0)
    errors := log.errors + (if severity = .error then 1 else 0)
    entries := log.entries ++ [⟨severity, message, location, log.label⟩] }

/-- Reports a warning, as the mode says. Warnings are not promoted while errors are downgraded. -/
def warning (log : Log) (message : String) (location : Location) : Log :=
  match log.mode with
  | .ignore => log
  | .normal => log.record .warning message (some location)
  | .asErrors =>
    log.record (if log.downgrade then .warning else .error) message (some location)

/-- Reports an error, or a warning while errors are downgraded. -/
def error (log : Log) (message : String) (location : Location) : Log :=
  if log.downgrade then log.warning message location
  else log.record .error message (some location)

/-- Reports that the text ended too early. This is an error in every mode. -/
def endOfFile (log : Log) : Log :=
  log.record .error "unexpected end of file" none

/-- The log can become the other one while a script is read: errors and records are only added,
and the settings are the same. -/
structure Precedes (log later : Log) : Prop where
  errors : log.errors ≤ later.errors
  downgrade : later.downgrade = log.downgrade
  mode : later.mode = log.mode
  label : later.label = log.label
  entries : log.entries <+: later.entries

namespace Precedes

variable {log middle later : Log}

theorem refl (log : Log) : log.Precedes log :=
  ⟨Nat.le_refl _, rfl, rfl, rfl, List.prefix_refl _⟩

theorem trans (h : log.Precedes middle) (h' : middle.Precedes later) : log.Precedes later :=
  ⟨Nat.le_trans h.errors h'.errors, h'.downgrade.trans h.downgrade, h'.mode.trans h.mode,
    h'.label.trans h.label, h.entries.trans h'.entries⟩

end Precedes

theorem precedes_record (log : Log) (severity : Severity) (message : String)
    (location : Option Location) : log.Precedes (log.record severity message location) :=
  ⟨Nat.le_add_right _ _, rfl, rfl, rfl, List.prefix_append _ _⟩

theorem precedes_warning (log : Log) (message : String) (location : Location) :
    log.Precedes (log.warning message location) := by
  unfold warning
  split
  · exact .refl log
  · exact log.precedes_record _ _ _
  · exact log.precedes_record _ _ _

theorem precedes_error (log : Log) (message : String) (location : Location) :
    log.Precedes (log.error message location) := by
  unfold error
  split
  · exact log.precedes_warning _ _
  · exact log.precedes_record _ _ _

theorem precedes_end_of_file (log : Log) : log.Precedes log.endOfFile :=
  log.precedes_record _ _ _

/-- Clears the counts and the records; the mode, the label and the downgrading stay. -/
def reset (log : Log) : Log :=
  { log with warnings := 0, errors := 0, entries := [] }

end Log

end QuestScript
