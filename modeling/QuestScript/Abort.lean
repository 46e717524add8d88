/-!
# Why a compilation stops

Reading stops early at a reported error, at the end of the text, or at a defect: a situation that
the assembler cannot express.
-/

namespace QuestScript

/-- A situation that no script should bring about. -/
inductive Defect where
  | infiniteLoop
  | loopSizeMismatch
  | tooManyButtons
  | operandUnderflow
  | operatorUnderflow
  | unknownOperator
  | noOperand
  | unknownArgument (letter : Char)
  | noOptionalArguments
  | noExplicitReference
  | tooManyOptionalArguments
  | unknownFunction
  | unknownInstruction
  deriving DecidableEq, Inhabited

/-- The wording of a defect. -/
def Defect.message : Defect → String
  | .infiniteLoop => "infinite loop"
  | .loopSizeMismatch => "loop size mismatch"
  | .tooManyButtons => "too many buttons"
  | .operandUnderflow => "operand stack underflow"
  | .operatorUnderflow => "operator stack underflow"
  | .unknownOperator => "unknown operator"
  | .noOperand => "expression left no operand"
  | .unknownArgument letter => "unknown argument type '" ++ letter.toString ++ "'"
  | .noOptionalArguments => "extension does not support optional arguments"
  | .noExplicitReference => "explicit references not supported"
  | .tooManyOptionalArguments => "number of optional arguments is too large"
  | .unknownFunction => "unknown custom function keyword"
  | .unknownInstruction => "unknown custom instruction keyword"

/-- The reason why reading stopped early. A `source` abort follows a reported error. -/
inductive Abort where
  | source
  | endOfFile
  | internal (defect : Defect)
  deriving DecidableEq, Inhabited

/-- The wording of an abort. -/
def Abort.message : Abort → String
  | .source => "compile error"
  | .endOfFile => "unexpected end of file"
  | .internal defect => "internal compiler error: " ++ defect.message

end QuestScript
