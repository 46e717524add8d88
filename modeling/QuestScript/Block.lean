import QuestScript.ControlFlow
import QuestScript.Statement

/-!
# Blocks

A block is a conditional from `if` to `endif` or a loop from `while` to `endwhile`. Blocks are
read with their nested blocks; `Block.scan` ties that knot.
-/

namespace QuestScript

/-- Where in a block the reading is. -/
inductive Block.Stage where
  /-- Nothing has been read. -/
  | start
  /-- Behind the condition of an arm. -/
  | ifEnd
  /-- In an arm with a condition. -/
  | ifBody
  /-- Behind `else`. -/
  | elseJunk
  /-- In the arm behind `else`. -/
  | elseBody
  /-- Behind `endif`. -/
  | endIf
  /-- Behind the condition of a loop. -/
  | whileEnd
  /-- In a loop. -/
  | whileBody
  /-- Behind `endwhile`. -/
  | endWhile
  deriving DecidableEq, Inhabited

/-- A block, as far as it has been read. -/
structure Block where
  stage : Block.Stage := .start
  /-- The condition of the arm or loop that is being read. -/
  condition : Code := []
  /-- The body of the arm or loop that is being read. -/
  body : Code := []
  /-- The arms that are complete. -/
  arms : List Arm := []
  /-- The code of the complete block. -/
  code : Code := []
  deriving DecidableEq, Inhabited

namespace Block

variable {n : Nat}

/-- Goes on to a stage. -/
def goto (stage : Stage) : Reading n Block Verdict := do
  modify ({ · with stage })
  pure .more

/-- Reads a condition, which may start with a token that has been delivered already. If that
fails the line is passed over, and the body follows without a condition. -/
def readCondition (env : Environment) (first : Option (Token × Location))
    (behind body : Stage) : Reading n Block Unit := do
  modify ({ · with condition := [] })
  let (read, e) ← Reading.nested ({} : Expression) (Reading.recoverLine env
    (Reading.starting (Expression.feed env (Expression.scan env n)) (Expression.scan env n) first))
  if read then
    let ((_, condition), _) ← Reading.nested e Expression.finish
    modify ({ · with condition, stage := behind })
  else
    modify ({ · with stage := body })

/-- Opens a block with its keyword, which is `if`, `elseif` or `while`. The condition may start
with a token that has been delivered already. -/
def opening (env : Environment) (word : Builtin) (location : Location)
    (first : Option (Token × Location)) : Reading n Block Unit := do
  if word = .elseIf then
    Reading.warn .elseifWithoutIf location
  if word = .whileBlock then readCondition env first .whileEnd .whileBody
  else readCondition env first .ifEnd .ifBody

/-- Reads a line of the body. -/
def readLine (env : Environment) (token : Token) (location : Location) :
    Reading n Block Verdict := do
  let ((_, code), _) ← Reading.nested ({} : Statement)
    (Statement.compile env (some (token, location)))
  modify fun block => { block with body := block.body ++ code }
  pure .more

/-- Reads a block inside the body, given a way to read blocks behind their opening. -/
def readNested (env : Environment) (nested : Reading n Block Unit) (word : Builtin)
    (location : Location) : Reading n Block Verdict := do
  let (_, inner) ← Reading.nested ({} : Block) do
    opening env word location none
    nested
  modify fun block => { block with body := block.body ++ inner.code }
  pure .more

/-- Passes over what stands behind `else`. -/
def passElseJunk (env : Environment) : Reading n Block Verdict := do
  Reading.skipRest env
  goto .elseBody

/-- Completes the arm that is being read. -/
def closeArm : Reading n Block Unit :=
  modify fun block =>
    let condition := if block.stage = .elseBody then none else some block.condition
    { block with
      arms := block.arms ++ [⟨condition, block.body⟩]
      condition := if block.stage = .elseBody then block.condition else []
      body := [] }

/-- Emits the code of a complete conditional. -/
def closeConditional : Reading n Block Verdict := do
  let block ← get
  let code ← Reading.ofDefect (ControlFlow.conditional block.arms)
  set { block with code := block.code ++ code, arms := [] }
  goto .endIf

/-- Emits the code of a complete loop. -/
def closeLoop : Reading n Block Verdict := do
  let block ← get
  let code ← Reading.ofDefect (ControlFlow.loop block.condition block.body)
  set { block with code := block.code ++ code, condition := [], body := [] }
  goto .endWhile

/-- Takes a keyword inside an arm. -/
def feedArmKeyword (env : Environment) (nested : Reading n Block Unit) (word : Keyword)
    (location : Location) : Reading n Block Verdict := do
  match word with
  | .builtin .endIf =>
    closeArm
    closeConditional
  | .builtin .elseIf =>
    closeArm
    readCondition env none .ifEnd .ifBody
    pure .more
  | .builtin .elseBlock =>
    closeArm
    goto .elseJunk
  | .builtin .ifBlock => readNested env nested .ifBlock location
  | .builtin .whileBlock => readNested env nested .whileBlock location
  | _ => readLine env (.keyword word) location

/-- Takes a keyword inside a loop. -/
def feedLoopKeyword (env : Environment) (nested : Reading n Block Unit) (word : Keyword)
    (location : Location) : Reading n Block Verdict :=
  match word with
  | .builtin .endWhile => closeLoop
  | .builtin .ifBlock => readNested env nested .ifBlock location
  | .builtin .whileBlock => readNested env nested .whileBlock location
  | _ => readLine env (.keyword word) location

/-- Takes a keyword. -/
def feedKeyword (env : Environment) (nested : Reading n Block Unit) (word : Keyword)
    (location : Location) : Reading n Block Verdict := do
  match (← get).stage, word with
  | .start, .builtin .ifBlock =>
    opening env .ifBlock location none
    pure .more
  | .start, .builtin .elseIf =>
    opening env .elseIf location none
    pure .more
  | .start, .builtin .whileBlock =>
    opening env .whileBlock location none
    pure .more
  | .ifBody, _ | .elseBody, _ => feedArmKeyword env nested word location
  | .whileBody, _ => feedLoopKeyword env nested word location
  | .elseJunk, _ =>
    Reading.warn .extraAfterElse location
    passElseJunk env
  | _, _ => Reading.refuse (.keyword word) location

/-- Takes the end of a line. -/
def feedNewline (location : Location) : Reading n Block Verdict := do
  match (← get).stage with
  | .ifEnd => goto .ifBody
  | .elseJunk => goto .elseBody
  | .whileEnd => goto .whileBody
  | .ifBody | .elseBody | .whileBody => pure .more
  | .endIf | .endWhile => pure .done
  | .start => Reading.refuse (.special .newline) location

/-- Takes a token other than a keyword or the end of a line. -/
def feedOther (env : Environment) (token : Token) (location : Location) :
    Reading n Block Verdict := do
  match (← get).stage, token with
  | .ifBody, _ | .elseBody, _ | .whileBody, _ => readLine env token location
  | .elseJunk, .name _ =>
    Reading.warn .extraAfterElse location
    passElseJunk env
  | .elseJunk, .special .opening => passElseJunk env
  | _, _ => Reading.refuse token location

/-- Takes one token, given a way to read nested blocks behind their opening. -/
def feed (env : Environment) (nested : Reading n Block Unit) (token : Token)
    (location : Location) : Reading n Block Verdict :=
  match token with
  | .keyword word => feedKeyword env nested word location
  | .special .newline => feedNewline location
  | _ => feedOther env token location

/-- Reads a block up to the end of its last line. -/
def scan (env : Environment) (n : Nat) : Reading n Block Unit :=
  Reading.scan env (fun _ => false) fun m _ => feed env (scan env m)
termination_by n

end Block

end QuestScript
