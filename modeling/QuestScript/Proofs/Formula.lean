import Mathlib.Data.List.Basic
import QuestScript.Expression.Reader

/-!
# Formulas

What an expression without functions and members means: its grammar, its type, its literals and
its code. Nothing here refers to the stacks of the reader.

The grammar has four levels. An expression is one or more sums with comparisons between them, a
sum is one or more products with plus or minus signs between them, and a product is one or more
units with signs for multiplication or division between them; all of these associate to the left.
A unit is an operand, a unit behind a sign, or an expression in parentheses.
-/

namespace QuestScript

/-- An operand that stands for itself. -/
inductive Operand where
  | int (value : Int32)
  | float (value : Binary32)
  | localVariable (type : ValueType) (index : Nat)
  | globalVariable (type : ValueType) (name : String)
  deriving DecidableEq

/-- The pool with further literals behind its own. -/
def Literals.append (pool more : Literals) : Literals where
  integers := pool.integers ++ more.integers
  floats := pool.floats ++ more.floats
  strings := pool.strings ++ more.strings

theorem Literals.append_assoc (pool more others : Literals) :
    (pool.append more).append others = pool.append (more.append others) := by
  simp [append]

@[simp] theorem Literals.append_empty (pool : Literals) : pool.append {} = pool := by
  simp [append]

namespace Operand

/-- The operand that a token stands for. A local variable hides a global one. -/
def ofToken? (env : Environment) (locals : Locals) : Token → Option Operand
  | .int value => some (.int value)
  | .float value => some (.float value)
  | .name text =>
    let name := Text.toLower text
    match locals.typeOf? name, locals.indexOf? name with
    | some type, some index => some (.localVariable type index)
    | _, _ => (env.globalType? name).map (.globalVariable · name)
  | _ => none

/-- The type of the value that the operand leaves on the stack. -/
def type : Operand → ValueType
  | .int _ => .long
  | .float _ => .float
  | .localVariable type _ | .globalVariable type _ => if type = .float then .float else .long

/-- The literals that the operand needs. -/
def literals : Operand → Literals
  | .int value => { integers := [value] }
  | .float value => { floats := [value] }
  | .localVariable _ _ => {}
  | .globalVariable _ name => { strings := [name] }

/-- Pushes the value of the operand, whose literals come behind those of the pool. -/
def code (pool : Literals) : Operand → Code
  | .int _ => [Assembly.push pool.integers.length, Assembly.op .fetchIntLiteral]
  | .float _ => [Assembly.push pool.floats.length, Assembly.op .fetchFloatLiteral]
  | .localVariable .short index => [Assembly.push index, Assembly.op .fetchLocalShort]
  | .localVariable .long index => [Assembly.push index, Assembly.op .fetchLocalLong]
  | .localVariable .float index => [Assembly.push index, Assembly.op .fetchLocalFloat]
  | .globalVariable .short _ => [Assembly.push pool.strings.length, Assembly.op .fetchGlobalShort]
  | .globalVariable .long _ => [Assembly.push pool.strings.length, Assembly.op .fetchGlobalLong]
  | .globalVariable .float _ => [Assembly.push pool.strings.length, Assembly.op .fetchGlobalFloat]

end Operand

/-- An operation on two values. -/
inductive Operation where
  | compare (kind : Comparison)
  | add
  | sub
  | mul
  | div
  deriving DecidableEq

/-- The instructions for an operation on integers and on floats. -/
def Operation.opcode (floating : Bool) : Operation → Opcode
  | .compare .equal => if floating then .equalFloat else .equalInt
  | .compare .notEqual => if floating then .nonEqualFloat else .nonEqualInt
  | .compare .less => if floating then .lessThanFloat else .lessThanInt
  | .compare .lessOrEqual => if floating then .lessOrEqualFloat else .lessOrEqualInt
  | .compare .greater => if floating then .greaterThanFloat else .greaterThanInt
  | .compare .greaterOrEqual => if floating then .greaterOrEqualFloat else .greaterOrEqualInt
  | .add => if floating then .addFloat else .addInt
  | .sub => if floating then .subFloat else .subInt
  | .mul => if floating then .mulFloat else .mulInt
  | .div => if floating then .divFloat else .divInt

/-- The tree of an expression. -/
inductive Formula where
  | atom (operand : Operand)
  | negate (inner : Formula)
  | binary (operation : Operation) (left right : Formula)

namespace Formula

/-- The formula has a float for its value. A comparison never has, and any other operation has if
one of its operands has. -/
def isFloat : Formula → Bool
  | .atom operand => operand.type = .float
  | .negate inner => inner.isFloat
  | .binary (.compare _) _ _ => false
  | .binary _ left right => left.isFloat || right.isFloat

/-- The type of the value of a formula. -/
def type (formula : Formula) : ValueType :=
  if formula.isFloat then .float else .long

/-- The literals of a formula, in the order of its operands. -/
def literals : Formula → Literals
  | .atom operand => operand.literals
  | .negate inner => inner.literals
  | .binary _ left right => left.literals.append right.literals

/-- Brings the two topmost values to a common type: if one of them is a float, the other one is
converted. -/
def promotion (leftFloat rightFloat : Bool) : Code :=
  match leftFloat, rightFloat with
  | false, true => [Assembly.op .intToFloat1]
  | true, false => [Assembly.op .intToFloat]
  | _, _ => []

/-- The code of a formula, operands first. The literals of the formula come behind those of the
pool. -/
def code (pool : Literals) : Formula → Code
  | .atom operand => operand.code pool
  | .negate inner =>
    inner.code pool ++ [Assembly.op (if inner.isFloat then .negateFloat else .negateInt)]
  | .binary operation left right =>
    left.code pool ++ right.code (pool.append left.literals) ++
      promotion left.isFloat right.isFloat ++
      [Assembly.op (operation.opcode (left.isFloat || right.isFloat))]

/-! ### The grammar -/

/-- The levels of the grammar. -/
inductive Level where
  | expression
  | sum
  | product
  | unit
  deriving DecidableEq

namespace Level

/-- The level of the parts that a level is made of. -/
def parts? : Level → Option Level
  | .expression => some .sum
  | .sum => some .product
  | .product => some .unit
  | .unit => none

/-- What a sign between two parts stands for. -/
def operation? : Level → Special → Option Operation
  | .expression, .comparison kind => some (.compare kind)
  | .sum, .plus => some .add
  | .sum, .minus => some .sub
  | .product, .times => some .mul
  | .product, .divided => some .div
  | _, _ => none

end Level

/-- The tokens form a formula of the level. -/
inductive Derives (env : Environment) (locals : Locals) : Level → List Token → Formula → Prop where
  | atom {token : Token} {operand : Operand}
      (h : Operand.ofToken? env locals token = some operand) :
      Derives env locals .unit [token] (.atom operand)
  | plus {tokens : List Token} {formula : Formula} (h : Derives env locals .unit tokens formula) :
      Derives env locals .unit (.special .plus :: tokens) formula
  | minus {tokens : List Token} {formula : Formula} (h : Derives env locals .unit tokens formula) :
      Derives env locals .unit (.special .minus :: tokens) (.negate formula)
  | group {tokens : List Token} {formula : Formula}
      (h : Derives env locals .expression tokens formula) :
      Derives env locals .unit (.special .opening :: tokens ++ [.special .closing]) formula
  | single {level part : Level} {tokens : List Token} {formula : Formula}
      (hpart : level.parts? = some part) (h : Derives env locals part tokens formula) :
      Derives env locals level tokens formula
  | binary {level part : Level} {sign : Special} {operation : Operation}
      {left right : List Token} {leftFormula rightFormula : Formula}
      (hpart : level.parts? = some part) (hsign : level.operation? sign = some operation)
      (hleft : Derives env locals level left leftFormula)
      (hright : Derives env locals part right rightFormula) :
      Derives env locals level (left ++ .special sign :: right)
        (.binary operation leftFormula rightFormula)

/-- The token may stand in a formula. -/
def Symbol (env : Environment) (locals : Locals) : Token → Prop
  | .special .opening | .special .closing | .special (.comparison _) | .special .plus
  | .special .minus | .special .times | .special .divided => True
  | .special _ => False
  | token => (Operand.ofToken? env locals token).isSome

end Formula

end QuestScript
