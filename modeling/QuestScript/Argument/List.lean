import QuestScript.Argument.Dropped
import QuestScript.Argument.Junk
import QuestScript.Argument.Text
import QuestScript.Expression.Basic

/-!
# Argument lists

The arguments of a call are described by a signature with one letter for each of them:

* `S` a text, `c` a text in lower case, `s`, `l` and `f` an expression that is converted to a
  short, long or float;
* `x` a text, `X` an expression and `z` a single value that may stand there but are dropped;
* `j` a place for junk;
* `/` makes all that follow optional.

Code for the arguments is emitted in reverse, so that the first one ends up on top of the stack.
-/

namespace QuestScript.ArgumentList

variable {n : Nat} {σ : Type}

/-- What was found for a letter of a signature. -/
inductive Found where
  /-- The optional arguments end here. -/
  | absent
  /-- Nothing to emit. -/
  | dropped
  /-- An argument with its code. -/
  | value (code : Code)
  deriving DecidableEq, Inhabited

/-- How the arguments of a call are read. -/
structure Manner where
  /-- A keyword that counts as junk. -/
  ignored : Option Keyword := none
  /-- Expressions may start with names that look like numbers. -/
  expectNames : Bool := false
  deriving DecidableEq, Inhabited

/-- The next lexeme is to be read as a name. -/
def expectName : Reading n σ Unit :=
  Reading.modifyModes fun modes => { modes with expectName := true }

/-- Reads a text argument. -/
def readText (env : Environment) (optional lowerCase : Bool) : Reading n σ Found := do
  expectName
  let (_, argument) ← Reading.nested
    ({ progress := { optional }, lowerCase } : TextArgument) (TextArgument.scan env)
  pure (if optional && argument.progress.empty then .absent else .value argument.code)

/-- Reads an extra argument that is a text. -/
def dropText (env : Environment) : Reading n σ Found := do
  expectName
  let (_, argument) ← Reading.nested
    ({ progress := { optional := true }, dropped := true } : TextArgument)
    (TextArgument.scan env)
  if argument.progress.empty then pure .absent
  else
    Reading.warn .extraArgument argument.location
    pure .dropped

/-- Reads an extra argument that is an expression. -/
def dropExpression (expression : Reading n Expression Unit) : Reading n σ Found := do
  let (_, e) ← Reading.nested
    ({ argument := true, progress := { optional := true } } : Expression) expression
  if e.progress.empty then pure .absent
  else
    Reading.warn .extraArgument e.location
    pure .dropped

/-- Reads an extra argument that is a single value. -/
def dropValue (env : Environment) : Reading n σ Found := do
  let (_, argument) ← Reading.nested
    ({ progress := { optional := true } } : DroppedArgument) (DroppedArgument.scan env)
  if argument.progress.empty then pure .absent
  else
    Reading.warn .extraArgument argument.location
    pure .dropped

/-- Reads an expression and converts its value to the given type. -/
def readValue (expression : Reading n Expression Unit) (optional : Bool) (type : ValueType) :
    Reading n σ Found := do
  let (_, e) ← Reading.nested
    ({ argument := true, progress := { optional } } : Expression) expression
  if optional && e.progress.empty then pure .absent
  else
    let ((found, code), _) ← Reading.nested e Expression.finish
    pure (.value (code ++ Assembly.convert found type))

/-- Reads an argument that is an expression of the given type. -/
def readExpression (expression : Reading n Expression Unit) (manner : Manner) (optional : Bool)
    (type : ValueType) : Reading n σ Found := do
  if manner.expectNames then
    expectName
  readValue expression optional type

/-- Reads what one letter of a signature describes. -/
def readLetter (env : Environment) (expression : Reading n Expression Unit) (manner : Manner)
    (optional : Bool) (letter : Char) : Reading n σ Found :=
  match letter with
  | 'S' => readText env optional false
  | 'c' => readText env optional true
  | 'x' => dropText env
  | 'X' => dropExpression expression
  | 'z' => dropValue env
  | 'j' => do
    let _ ← Reading.nested () (Junk.scan env manner.ignored)
    pure .dropped
  | _ =>
    match ValueType.ofLetter? letter with
    | some type => readExpression expression manner optional type
    | none => Reading.abort (.internal (.unknownArgument letter))

/-- Reads what the letters of a signature describe. The value is the number of optional arguments
and the code of all, where `count` and `parts` are those read before, the last one first. -/
def readLetters (env : Environment) (expression : Reading n Expression Unit) (manner : Manner) :
    (optional : Bool) → (count : Nat) → (parts : List Code) → List Char →
    Reading n σ (Nat × Code)
  | _, count, parts, [] => pure (count, parts.flatten)
  | optional, count, parts, letter :: rest =>
    if letter = '/' then readLetters env expression manner true count parts rest
    else do
      match ← readLetter env expression manner optional letter with
      | .absent => pure (count, parts.flatten)
      | .dropped => readLetters env expression manner optional count parts rest
      | .value code =>
        let count := if optional then count + 1 else count
        readLetters env expression manner optional count (code :: parts) rest

/-- Reads the arguments of a call, given a way to read expressions. The value is the number of
optional arguments and the code. -/
def read (env : Environment) (expression : Reading n Expression Unit) (signature : String)
    (manner : Manner := {}) : Reading n σ (Nat × Code) :=
  readLetters env expression manner false 0 [] signature.toList

end QuestScript.ArgumentList
