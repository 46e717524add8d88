import QuestScript.Compile
import QuestScript.Header
import QuestScript.Listing

/-!
# Batches

A batch is a list of sources that are compiled one by one against the same environment. Sources
with errors are set aside; only a defect ends the whole run. The artifacts of a batch are the
files to write for it.
-/

namespace QuestScript

/-- How the sources of a batch are compiled. -/
inductive Mode where
  | script
  | console
  | localsOnly
  deriving DecidableEq, Inhabited

/-- A source text with the name that its artifacts get. -/
structure Source where
  name : String
  text : String
  deriving DecidableEq, Inhabited

/-- A source that has been compiled. -/
structure CompiledScript where
  name : String
  program : Program
  deriving DecidableEq, Inhabited

/-- What has become of a list of sources. -/
structure Batch where
  mode : Mode := .script
  /-- The scripts without errors. -/
  scripts : List CompiledScript := []
  /-- The names of the others. -/
  failed : List String := []
  warnings : Nat := 0
  errors : Nat := 0
  /-- The problems of all scripts. -/
  diagnostics : List Diagnostic := []
  deriving DecidableEq, Inhabited

/-- The defect that ended a batch, with the name of the source. -/
structure BatchError where
  name : String
  defect : Defect
  deriving DecidableEq, Inhabited

/-- The wording of the defect that ended a batch. -/
def BatchError.message (error : BatchError) : String :=
  error.name ++ ": " ++ (Abort.internal error.defect).message

/-- A file to write: its name and its bytes. -/
structure Artifact where
  file : String
  content : List UInt8
  deriving DecidableEq, Inhabited

/-- A file with text to write. -/
def Artifact.ofText (file text : String) : Artifact :=
  ⟨file, Text.encodeUtf8 text⟩

namespace Batch

/-- Compiles one source in the given mode. -/
def compileSource (env : Environment) (mode : Mode) (warnings : WarningsMode) (source : Source) :
    Compilation Program :=
  let log : Log := { mode := warnings, label := some source.name }
  match mode with
  | .script => compileScript env source.text log
  | .console => compileConsole env source.text log {}
  | .localsOnly =>
    let found := scanLocals env source.text log
    ⟨found.outcome.map fun locals => { locals }, found.log, found.locals⟩

/-- Compiles one more source. -/
def add (env : Environment) (warnings : WarningsMode) (batch : Batch) (source : Source) :
    Except BatchError Batch :=
  let compilation := compileSource env batch.mode warnings source
  let batch := { batch with
    warnings := batch.warnings + compilation.log.warnings
    errors := batch.errors + compilation.log.errors
    diagnostics := batch.diagnostics ++ compilation.log.entries }
  match compilation.outcome with
  | .ok program =>
    if compilation.log.isGood then
      .ok { batch with scripts := batch.scripts ++ [⟨source.name, program⟩] }
    else .ok { batch with failed := batch.failed ++ [source.name] }
  | .error .source | .error .endOfFile =>
    .ok { batch with failed := batch.failed ++ [source.name] }
  | .error (.internal defect) => .error ⟨source.name, defect⟩

/-- Compiles a list of sources. -/
def run (env : Environment) (mode : Mode) (warnings : WarningsMode) (sources : List Source) :
    Except BatchError Batch :=
  sources.foldlM (add env warnings) { mode }

/-- The image and the local variables of each script. Without compilation there is no image. -/
def images (batch : Batch) : List Artifact :=
  batch.scripts.flatMap fun script =>
    (if batch.mode = .localsOnly then [] else [⟨script.name ++ ".bin", script.program.bytes⟩]) ++
      [Artifact.ofText (script.name ++ ".locals") script.program.locals.write]

/-- The listing of each script. -/
def listings (batch : Batch) : List Artifact :=
  batch.scripts.map fun script =>
    Artifact.ofText (script.name ++ ".lst") (Listing.ofProgram script.program)

/-- The header. -/
def header : Artifact :=
  Artifact.ofText "opcodes.h" Header.text

end Batch

end QuestScript
