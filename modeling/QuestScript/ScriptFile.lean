import QuestScript.Body

/-!
# Script files

A script file is `begin` with a name, a body, and `end` with an optional name. What follows is
ignored.
-/

namespace QuestScript

/-- Where in a script file the reading is. -/
inductive ScriptFile.Stage where
  /-- In front of `begin`. -/
  | begin
  /-- In front of the name. -/
  | name
  /-- Behind the name. -/
  | beginComplete
  /-- Behind `end`. -/
  | endName
  /-- Behind the name that follows `end`. -/
  | endComplete
  deriving DecidableEq, Inhabited

/-- A script file, as far as it has been read. -/
structure ScriptFile where
  stage : ScriptFile.Stage := .begin
  /-- The name of the script as it is written. -/
  name : String := ""
  /-- The code of the body. -/
  code : Code := []
  deriving DecidableEq, Inhabited

namespace ScriptFile

variable {n : Nat}

/-- Two names are the same up to the case of the letters from `a` to `z`. -/
def sameName (a b : String) : Bool :=
  a.map Char.toLower == b.map Char.toLower

/-- Takes the name behind `begin`. -/
def feedBeginName (name : String) : Reading n ScriptFile Verdict := do
  modify ({ · with name, stage := .beginComplete })
  pure .more

/-- Takes the name behind `end`. -/
def feedEndName (name : String) (location : Location) : Reading n ScriptFile Verdict := do
  let file ← get
  unless sameName file.name name do
    Reading.warn (.scriptNamesDiffer file.name) location
  set { file with stage := .endComplete }
  pure .done

/-- Reads the body. Its code is kept even if the reading stops early. -/
def readBody (env : Environment) : Reading n ScriptFile Verdict := do
  let (outcome, body) ← Reading.within ({ ends := true } : Body) (Body.scan env)
  modify ({ · with code := body.code })
  Reading.ofOutcome outcome
  modify ({ · with stage := .endName })
  pure .more

/-- Takes one token. -/
def feed (env : Environment) (token : Token) (location : Location) :
    Reading n ScriptFile Verdict := do
  match (← get).stage, token with
  | .begin, .keyword (.builtin .beginScript) =>
    modify ({ · with stage := .name })
    Reading.modifyModes fun modes => { modes with tolerantNames := true }
    pure .more
  | .begin, .special sign =>
    if sign ≠ .newline then
      Reading.warn .specialBeforeBegin location
    pure .more
  | .name, .name name => feedBeginName name
  | .name, .keyword _ => feedBeginName location.literal
  | .beginComplete, .name name =>
    Reading.warn (.extraAfterScriptName name) location
    pure .more
  | .beginComplete, .special .newline => readBody env
  | .endName, .name name => feedEndName name location
  | .endName, .keyword _ => feedEndName location.literal location
  | .endName, .special .newline | .endComplete, .special .newline => pure .done
  | _, _ => Reading.refuse token location

/-- The text may end here. -/
def mayEnd (file : ScriptFile) : Bool :=
  file.stage == .endName || file.stage == .endComplete

/-- Reads a script file. -/
def scan (env : Environment) : Reading n ScriptFile Unit :=
  Reading.scan env mayEnd fun _ _ => feed env

end ScriptFile

end QuestScript
