import QuestScript.Assembly
import QuestScript.Reading.Progress

/-!
# Expressions

Operands are emitted as they are read. Operators wait on a stack until an operator that binds no
tighter, a closing parenthesis or the end of the expression brings them out. A second stack holds
the types of the values that the emitted code leaves, so that each operator finds its variant for
integers or floats.
-/

namespace QuestScript

/-- What waits on the operator stack. -/
inductive Operator where
  | opening
  | compare (kind : Comparison)
  | add
  | sub
  | mul
  | div
  | negate
  deriving DecidableEq, Inhabited

/-- What the emitted code leaves on the stack, the topmost type first, and the code. -/
structure Emitted where
  operands : List ValueType := []
  code : Code := []
  deriving DecidableEq, Inhabited

namespace Operator

/-- How tightly an operator binds. -/
def priority : Operator → Nat
  | .opening => 0
  | .compare _ => 1
  | .add | .sub => 2
  | .mul | .div => 3
  | .negate => 4

/-- The operator that a special sign stands for between two operands. -/
def ofSpecial? : Special → Option Operator
  | .times => some .mul
  | .divided => some .div
  | .plus => some .add
  | .minus => some .sub
  | .comparison kind => some (.compare kind)
  | _ => none

/-- The type of the result of an arithmetic operation. -/
def joinTypes (left right : ValueType) : ValueType :=
  if left.isFloat || right.isFloat then .float else .long

/-- Emits an operator on the topmost values. -/
def apply (operator : Operator) (values : Emitted) : Except Defect Emitted :=
  let arithmetic (emit : ValueType → ValueType → Code) : Except Defect Emitted :=
    match values.operands with
    | right :: left :: rest => .ok ⟨joinTypes left right :: rest, values.code ++ emit left right⟩
    | _ => .error .operandUnderflow
  match operator with
  | .opening => .error .unknownOperator
  | .negate =>
    match values.operands with
    | type :: _ => .ok { values with code := values.code ++ Assembly.negate type }
    | [] => .error .operandUnderflow
  | .compare kind =>
    match values.operands with
    | right :: left :: rest =>
      .ok ⟨.long :: rest, values.code ++ Assembly.compare kind left right⟩
    | _ => .error .operandUnderflow
  | .add => arithmetic Assembly.add
  | .sub => arithmetic Assembly.sub
  | .mul => arithmetic Assembly.mul
  | .div => arithmetic Assembly.div

/-- Emits operators from the top of a stack as long as the top, if there is one, passes a test. -/
def emitWhile (test : Option Operator → Bool) : List Operator → Emitted →
    Except Defect (List Operator × Emitted)
  | [], values => if test none then .error .operatorUnderflow else .ok ([], values)
  | operator :: rest, values =>
    if test (some operator) then do emitWhile test rest (← operator.apply values)
    else .ok (operator :: rest, values)

end Operator

/-- An expression, as far as it has been read. -/
structure Expression where
  progress : Progress := {}
  /-- The expression is an argument: outside of parentheses it ends at operators other than `*`
  and `/`, because commas between arguments may be missing. -/
  argument : Bool := false
  /-- What has been emitted. -/
  values : Emitted := {}
  /-- The operators that wait, the last one first. -/
  operators : List Operator := []
  /-- An operand has to follow. -/
  nextOperand : Bool := true
  /-- Nothing has been read, not even a comma. -/
  first : Bool := true
  /-- The place of the token that contributed last. -/
  location : Location := {}
  /-- The object that a function or member is to be taken from; empty if there is none. -/
  object : String := ""
  /-- An arrow has been read behind the object. -/
  arrow : Bool := false
  /-- A point has been read behind the object. -/
  point : Bool := false
  deriving DecidableEq, Inhabited

namespace Expression

variable {n : Nat}

/-- The expression as it was before anything had been read. -/
def reset (e : Expression) : Expression :=
  { argument := e.argument }

/-- The code emitted so far. -/
def code (e : Expression) : Code :=
  e.values.code

/-- A parenthesis is open. -/
def isOpen (e : Expression) : Bool :=
  e.operators.contains .opening

/-- Emits code. -/
def emit (e : Expression) (code : Code) : Expression :=
  { e with values := { e.values with code := e.values.code ++ code } }

/-- Notes that the code has left an operand. -/
def pushOperand (e : Expression) (type : ValueType) : Expression :=
  { e with
    values := { e.values with operands := type.operand :: e.values.operands }
    nextOperand := false }

/-- Puts an operator on the stack. -/
def pushOperator (e : Expression) (operator : Operator) : Expression :=
  { e with operators := operator :: e.operators }

/-- Emits the waiting operators as long as the topmost passes a test. -/
def emitOperators (e : Expression) (test : Option Operator → Bool) :
    Except Defect Expression := do
  let (operators, values) ← Operator.emitWhile test e.operators e.values
  pure { e with operators, values }

/-- Puts an operator between two operands: those that bind at least as tightly come out. -/
def pushBinary (e : Expression) (operator : Operator) : Except Defect Expression := do
  let e ← e.emitOperators (·.any fun top => decide (operator.priority ≤ top.priority))
  pure { e.pushOperator operator with nextOperand := true }

/-- Closes the innermost parenthesis, which has to be there. -/
def close (e : Expression) : Except Defect Expression := do
  let e ← e.emitOperators fun top => top != some .opening
  pure { e with operators := e.operators.drop 1 }

/-- Ends the expression. The value is its type and code. An expression that is not complete is
reported and counts as a long without code. -/
def finish : Reading n Expression (ValueType × Code) := do
  let e ← get
  if e.values.operands.isEmpty && e.operators.isEmpty then
    Reading.report .missingExpression e.location
    pure (.long, [])
  else if e.nextOperand || e.values.operands.isEmpty then
    Reading.report .malformedExpression e.location
    pure (.long, [])
  else if e.isOpen then
    Reading.report .missingClosing e.location
    pure (.long, [])
  else
    let e ← Reading.ofDefect (e.emitOperators Option.isSome)
    set e
    match e.values.operands with
    | type :: _ => pure (type, e.code)
    | [] => Reading.abort (.internal .noOperand)

end Expression

end QuestScript
