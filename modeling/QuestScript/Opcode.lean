/-!
# Operations without operands

The last instruction format has no operand, only an operation number. The numbers from zero on
are the operations of the language itself, in the order of this module; larger ones belong to the
host.
-/

namespace QuestScript

/-- A built-in operation, in the order of the operation numbers. -/
inductive Opcode where
  | storeLocalShort
  | storeLocalLong
  | storeLocalFloat
  | intToFloat
  | fetchIntLiteral
  | fetchFloatLiteral
  | floatToInt
  | negateInt
  | negateFloat
  | addInt
  | addFloat
  | subInt
  | subFloat
  | mulInt
  | mulFloat
  | divInt
  | divFloat
  | intToFloat1
  | floatToInt1
  | squareRoot
  | exit
  | fetchLocalShort
  | fetchLocalLong
  | fetchLocalFloat
  | skipOnZero
  | skipOnNonZero
  | equalInt
  | nonEqualInt
  | lessThanInt
  | lessOrEqualInt
  | greaterThanInt
  | greaterOrEqualInt
  | equalFloat
  | nonEqualFloat
  | lessThanFloat
  | lessOrEqualFloat
  | greaterThanFloat
  | greaterOrEqualFloat
  | menuMode
  | storeGlobalShort
  | storeGlobalLong
  | storeGlobalFloat
  | fetchGlobalShort
  | fetchGlobalLong
  | fetchGlobalFloat
  | random
  | scriptRunning
  | startScript
  | stopScript
  | getDistance
  | getSecondsPassed
  | enable
  | disable
  | getDisabled
  | enableExplicit
  | disableExplicit
  | getDisabledExplicit
  | getDistanceExplicit
  | report
  | storeMemberShort
  | storeMemberLong
  | storeMemberFloat
  | fetchMemberShort
  | fetchMemberLong
  | fetchMemberFloat
  | storeGlobalMemberShort
  | storeGlobalMemberLong
  | storeGlobalMemberFloat
  | fetchGlobalMemberShort
  | fetchGlobalMemberLong
  | fetchGlobalMemberFloat
  | startScriptExplicit
  deriving DecidableEq, Inhabited

namespace Opcode

/-- Every built-in operation, in the order of the numbers. -/
def all : List Opcode := [
  .storeLocalShort, .storeLocalLong, .storeLocalFloat, .intToFloat, .fetchIntLiteral,
  .fetchFloatLiteral, .floatToInt, .negateInt, .negateFloat, .addInt, .addFloat, .subInt,
  .subFloat, .mulInt, .mulFloat, .divInt, .divFloat, .intToFloat1, .floatToInt1, .squareRoot,
  .exit, .fetchLocalShort, .fetchLocalLong, .fetchLocalFloat, .skipOnZero, .skipOnNonZero,
  .equalInt, .nonEqualInt, .lessThanInt, .lessOrEqualInt, .greaterThanInt, .greaterOrEqualInt,
  .equalFloat, .nonEqualFloat, .lessThanFloat, .lessOrEqualFloat, .greaterThanFloat,
  .greaterOrEqualFloat, .menuMode, .storeGlobalShort, .storeGlobalLong, .storeGlobalFloat,
  .fetchGlobalShort, .fetchGlobalLong, .fetchGlobalFloat, .random, .scriptRunning,
  .startScript, .stopScript, .getDistance, .getSecondsPassed, .enable, .disable, .getDisabled,
  .enableExplicit, .disableExplicit, .getDisabledExplicit, .getDistanceExplicit, .report,
  .storeMemberShort, .storeMemberLong, .storeMemberFloat, .fetchMemberShort, .fetchMemberLong,
  .fetchMemberFloat, .storeGlobalMemberShort, .storeGlobalMemberLong, .storeGlobalMemberFloat,
  .fetchGlobalMemberShort, .fetchGlobalMemberLong, .fetchGlobalMemberFloat,
  .startScriptExplicit]

/-- The number of an operation. -/
def code (o : Opcode) : UInt32 :=
  UInt32.ofNat o.ctorIdx

/-- The operation with the given number. -/
def ofCode? (n : UInt32) : Option Opcode :=
  all[n.toNat]?

/-- The name of an operation in listings and in the header. -/
def name : Opcode → String
  | .storeLocalShort => "StoreLocalShort"
  | .storeLocalLong => "StoreLocalLong"
  | .storeLocalFloat => "StoreLocalFloat"
  | .intToFloat => "IntToFloat"
  | .fetchIntLiteral => "FetchIntLiteral"
  | .fetchFloatLiteral => "FetchFloatLiteral"
  | .floatToInt => "FloatToInt"
  | .negateInt => "NegateInt"
  | .negateFloat => "NegateFloat"
  | .addInt => "AddInt"
  | .addFloat => "AddFloat"
  | .subInt => "SubInt"
  | .subFloat => "SubFloat"
  | .mulInt => "MulInt"
  | .mulFloat => "MulFloat"
  | .divInt => "DivInt"
  | .divFloat => "DivFloat"
  | .intToFloat1 => "IntToFloat1"
  | .floatToInt1 => "FloatToInt1"
  | .squareRoot => "SquareRoot"
  | .exit => "Return"
  | .fetchLocalShort => "FetchLocalShort"
  | .fetchLocalLong => "FetchLocalLong"
  | .fetchLocalFloat => "FetchLocalFloat"
  | .skipOnZero => "SkipOnZero"
  | .skipOnNonZero => "SkipOnNonZero"
  | .equalInt => "EqualInt"
  | .nonEqualInt => "NonEqualInt"
  | .lessThanInt => "LessThanInt"
  | .lessOrEqualInt => "LessOrEqualInt"
  | .greaterThanInt => "GreaterThanInt"
  | .greaterOrEqualInt => "GreaterOrEqualInt"
  | .equalFloat => "EqualFloat"
  | .nonEqualFloat => "NonEqualFloat"
  | .lessThanFloat => "LessThanFloat"
  | .lessOrEqualFloat => "LessOrEqualFloat"
  | .greaterThanFloat => "GreaterThanFloat"
  | .greaterOrEqualFloat => "GreaterOrEqualFloat"
  | .menuMode => "MenuMode"
  | .storeGlobalShort => "StoreGlobalShort"
  | .storeGlobalLong => "StoreGlobalLong"
  | .storeGlobalFloat => "StoreGlobalFloat"
  | .fetchGlobalShort => "FetchGlobalShort"
  | .fetchGlobalLong => "FetchGlobalLong"
  | .fetchGlobalFloat => "FetchGlobalFloat"
  | .random => "Random"
  | .scriptRunning => "ScriptRunning"
  | .startScript => "StartScript"
  | .stopScript => "StopScript"
  | .getDistance => "GetDistance"
  | .getSecondsPassed => "GetSecondsPassed"
  | .enable => "Enable"
  | .disable => "Disable"
  | .getDisabled => "GetDisabled"
  | .enableExplicit => "EnableExplicit"
  | .disableExplicit => "DisableExplicit"
  | .getDisabledExplicit => "GetDisabledExplicit"
  | .getDistanceExplicit => "GetDistanceExplicit"
  | .report => "Report"
  | .storeMemberShort => "StoreMemberShort"
  | .storeMemberLong => "StoreMemberLong"
  | .storeMemberFloat => "StoreMemberFloat"
  | .fetchMemberShort => "FetchMemberShort"
  | .fetchMemberLong => "FetchMemberLong"
  | .fetchMemberFloat => "FetchMemberFloat"
  | .storeGlobalMemberShort => "StoreGlobalMemberShort"
  | .storeGlobalMemberLong => "StoreGlobalMemberLong"
  | .storeGlobalMemberFloat => "StoreGlobalMemberFloat"
  | .fetchGlobalMemberShort => "FetchGlobalMemberShort"
  | .fetchGlobalMemberLong => "FetchGlobalMemberLong"
  | .fetchGlobalMemberFloat => "FetchGlobalMemberFloat"
  | .startScriptExplicit => "StartScriptExplicit"

end Opcode

end QuestScript
