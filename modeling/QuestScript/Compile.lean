import QuestScript.Outline
import QuestScript.Program
import QuestScript.ScriptFile

/-!
# Compiling

A text is compiled as a script file, as console input, or only for its local variables. Problems
go to a log; a program counts only if the log has no errors.
-/

namespace QuestScript

/-- What a compilation leaves: its outcome, the log and the local variables. -/
structure Compilation (α : Type) where
  outcome : Except Abort α
  log : Log
  locals : Locals

/-- The compilation that a reading amounts to, given what is made of its last state. -/
def Compilation.ofResult {σ α : Type} (result : Result σ Unit) (make : σ → Session → α) :
    Compilation α where
  outcome := result.outcome.map fun _ => make result.reader result.session
  log := result.session.log
  locals := result.session.locals

/-- Compiles a script file. -/
def compileScript (env : Environment) (source : String) (log : Log) : Compilation Program :=
  let session : Session := { scanner := Scanner.ofText source, log }
  let result := Reading.runOn (fun _ => ScriptFile.scan env) {} session
  Compilation.ofResult result fun file session =>
    { name := file.name, literals := session.literals, locals := session.locals,
      code := file.code }

/-- Compiles console input, where the last line need not be ended. The local variables are those
of earlier input. -/
def compileConsole (env : Environment) (source : String) (log : Log) (locals : Locals) :
    Compilation Program :=
  let session : Session := { scanner := Scanner.ofText (source ++ "\n"), log, locals }
  let result := Reading.runOn (fun _ => Body.scan env) { ends := false } session
  Compilation.ofResult result fun body session =>
    { literals := session.literals, locals := session.locals, code := body.code }

/-- Collects the local variables of a script without compiling it. -/
def scanLocals (env : Environment) (source : String) (log : Log) : Compilation Locals :=
  let session : Session := { scanner := Scanner.ofText source, log }
  let result := Reading.runOn (fun _ => Outline.scan env) () session
  Compilation.ofResult result fun _ session => session.locals

end QuestScript
