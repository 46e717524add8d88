import QuestScript.Environment.File
import QuestScript.Files
import QuestScript.Options

/-!
# The command

The command reads the environment and the sources, compiles, and writes the artifacts. Whatever
stops it is reported with the causes behind it.
-/

namespace QuestScript.Command

variable {m : Type → Type} [Monad m]

/-- What stopped the command: the outermost message first, then the causes behind it. -/
abbrev Causes := List String

/-- Gives a file error the contexts in which it arose. -/
def inContext {α : Type} (contexts : List String) (x : m (Except FileError α)) :
    ExceptT Causes m α := do
  match ← x with
  | .ok a => pure a
  | .error error => throw (contexts ++ [error.message])

/-- The context of everything that is loaded. -/
def loading : String := "Loading environment and sources"

/-- Reads the environment. -/
def loadEnvironment (files : Files m) (path : String) : ExceptT Causes m Environment := do
  let bytes ← inContext [loading, "Reading " ++ path] (files.read path)
  match Text.decodeUtf8? bytes with
  | none => throw [loading, "Reading " ++ path, FileError.notText.message]
  | some text =>
    match Environment.load text with
    | .ok env => pure env
    | .error error => throw ([loading, "Parsing environment " ++ path] ++ error.chain)

/-- A source as it is named and decoded. -/
def sourceOf? (path : String) (bytes : List UInt8) : Option Source := do
  let name ← Path.stem? path
  pure ⟨name, Text.decodeLossy bytes⟩

/-- Reads a source. -/
def loadSource (files : Files m) (path : String) : ExceptT Causes m Source := do
  let bytes ← inContext [loading, "Reading " ++ path] (files.read path)
  match sourceOf? path bytes with
  | some source => pure source
  | none => throw [loading, path ++ " has no usable file name"]

/-- Writes artifacts to a folder. -/
def writeArtifacts (files : Files m) (folder context : String) (artifacts : List Artifact) :
    ExceptT Causes m Unit :=
  artifacts.forM fun artifact =>
    inContext [context] (files.write (Path.join folder artifact.file) artifact.content)

/-- Compiles the sources and writes the artifacts. -/
def build (files : Files m) (options : Options) : ExceptT Causes m Batch := do
  let env ←
    match options.environment with
    | some path => loadEnvironment files path
    | none => pure {}
  let sources ← options.inputs.mapM (loadSource files)
  let batch ←
    match Batch.run env options.mode options.warnings sources with
    | .ok batch => pure batch
    | .error error => throw ["Compiling scripts", error.message]
  inContext ["Creating " ++ options.output] (files.makeFolders options.output)
  writeArtifacts files options.output "Writing binary artifacts" batch.images
  if options.listing then
    writeArtifacts files options.output "Writing listings" batch.listings
  if options.header then
    writeArtifacts files options.output "Writing C header" [Batch.header]
  pure batch

/-- The scripts that failed, as a reason to stop. -/
def failures (batch : Batch) : Except Causes Unit :=
  if batch.failed.isEmpty then .ok ()
  else
    .error [toString batch.failed.length ++ " script(s) failed: " ++
      String.intercalate ", " batch.failed]

/-- A cause below a heading. The lines of its text are indented behind its number, if there is
one. -/
def causeText (number : Option Nat) (text : String) : String :=
  let lines := text.splitOn "\n"
  match number with
  | none => "\n    " ++ String.intercalate "\n    " lines
  | some n =>
    let digits := toString n
    "\n" ++ String.ofList (List.replicate (5 - digits.length) ' ') ++ digits ++ ": " ++
      String.intercalate "\n       " lines

/-- The report of what stopped the command. Causes are numbered if there are several. -/
def report : Causes → String
  | [] => ""
  | [text] => "Error: " ++ text ++ "\n"
  | [text, cause] => "Error: " ++ text ++ "\n\nCaused by:" ++ causeText none cause ++ "\n"
  | text :: causes =>
    "Error: " ++ text ++ "\n\nCaused by:" ++
      String.join (causes.mapIdx fun n cause => causeText (some n) cause) ++ "\n"

/-- How the command ends. -/
structure Ending where
  /-- The status for whoever called. -/
  status : Nat
  /-- What stopped the command. -/
  report : String := ""
  /-- The problems of the scripts. -/
  diagnostics : List Diagnostic := []
  deriving DecidableEq, Inhabited

/-- Runs the command with options. -/
def runWith (files : Files m) (options : Options) : m Ending := do
  match ← (build files options).run with
  | .error causes => pure { status := 1, report := report causes }
  | .ok batch =>
    match failures batch with
    | .ok () => pure { status := 0, diagnostics := batch.diagnostics }
    | .error causes =>
      pure { status := 1, report := report causes, diagnostics := batch.diagnostics }

/-- The status when the arguments are not accepted. Showing help is no failure. -/
def refusalStatus : OptionError → Nat
  | .helpAsked | .versionAsked => 0
  | _ => 2

/-- Runs the command with its arguments. -/
def run (files : Files m) (arguments : List String) : m Ending :=
  match Options.ofArguments arguments with
  | .ok options => runWith files options
  | .error error => pure { status := refusalStatus error }

end QuestScript.Command
