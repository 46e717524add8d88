import QuestScript.Block

/-!
# Bodies

The body of a script is a sequence of statements and blocks. In a script file it ends at `end`;
on the console it ends with the text.
-/

namespace QuestScript

/-- A body, as far as it has been read. -/
structure Body where
  /-- The body ends at `end`, and expressions are no statements. -/
  ends : Bool
  /-- The code of what has been read. -/
  code : Code := []
  deriving DecidableEq, Inhabited

namespace Body

variable {n : Nat}

/-- Adds code. -/
def emit (code : Code) : Reading n Body Unit :=
  modify fun body => { body with code := body.code ++ code }

/-- Reads a statement that starts with the given token. -/
def readLine (env : Environment) (token : Token) (location : Location) :
    Reading n Body Verdict := do
  let ((_, code), _) ← Reading.nested ({ allowExpression := !(← get).ends } : Statement)
    (Statement.compile env (some (token, location)))
  emit code
  pure .more

/-- Reads a block behind its keyword. The condition may start with a token that has been
delivered already. A block that cannot be read has no code. -/
def readBlock (env : Environment) (word : Builtin) (location : Location)
    (first : Option (Token × Location)) : Reading n Body Verdict := do
  let (read, block) ← Reading.nested ({} : Block) (Reading.recoverLine env do
    Block.opening env word location first
    Block.scan env n)
  if read then
    emit block.code
  pure .more

/-- Takes one token. A parenthesis at the start of a line opens a conditional block. -/
def feed (env : Environment) (token : Token) (location : Location) :
    Reading n Body Verdict := do
  match token with
  | .keyword (.builtin .ifBlock) => readBlock env .ifBlock location none
  | .keyword (.builtin .elseIf) => readBlock env .elseIf location none
  | .keyword (.builtin .whileBlock) => readBlock env .whileBlock location none
  | .keyword (.builtin .endIf) =>
    Reading.warn .endifWithoutIf location
    Reading.skipLine env
    pure .more
  | .keyword (.builtin .endScript) =>
    if (← get).ends then pure .done else readLine env token location
  | .special .newline => pure .more
  | .special .opening => readBlock env .ifBlock location (some (token, location))
  | _ => readLine env token location

/-- Reads a body. -/
def scan (env : Environment) : Reading n Body Unit :=
  Reading.scan env (!·.ends) fun _ _ => feed env

end Body

end QuestScript
