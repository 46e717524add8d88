import QuestScript.Command

/-!
# The program

The command on the files of the machine. Problems of scripts and the report of what stopped the
command go to the error stream.
-/

namespace QuestScript

/-- The file error that a failed operation amounts to. -/
def FileError.ofFailure : IO.Error → FileError
  | .noFileOrDirectory .. => .missing
  | .alreadyExists .. => .alreadyThere
  | .inappropriateType _ code _ => if code = 21 then .isFolder else .notFolder
  | error => .other (toString error)

/-- Runs a file operation. -/
def tryFile {α : Type} (x : IO α) : IO (Except FileError α) := do
  match ← x.toBaseIO with
  | .ok a => pure (.ok a)
  | .error error => pure (.error (.ofFailure error))

/-- Access to the files of the machine. -/
def machineFiles : Files IO where
  read path := tryFile do pure (← IO.FS.readBinFile path).toList
  write path content := tryFile (IO.FS.writeBinFile path (ByteArray.mk content.toArray))
  makeFolder path := tryFile (IO.FS.createDir path)

/-- What is shown for the arguments that ask for help. -/
def usage : String :=
  "Usage: questscript [OPTIONS] <INPUTS>...\n\n" ++
    "Options:\n" ++
    "  -o, --output <OUTPUT>            Output directory [default: out]\n" ++
    "  -e, --environment <ENVIRONMENT>  Environment .json file\n" ++
    "      --console                    Compile each input as console input\n" ++
    "      --locals-only                Only collect local declarations\n" ++
    "      --listing                    Also write a disassembly listing per script\n" ++
    "      --header                     Also write opcodes.h\n" ++
    "      --warnings <WARNINGS>        ignore, normal or strict [default: normal]\n"

end QuestScript

open QuestScript in
/-- Runs the command with the arguments of the program. -/
def main (arguments : List String) : IO UInt32 := do
  if let .error error := Options.ofArguments arguments then
    match error with
    | .versionAsked => IO.print "questscript 0.1.0\n"
    | .helpAsked => IO.print usage
    | _ => IO.eprint usage
  let ending ← Command.run machineFiles arguments
  for diagnostic in ending.diagnostics do
    IO.eprintln diagnostic.text
  IO.eprint ending.report
  pure (UInt32.ofNat ending.status)
