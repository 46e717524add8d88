import QuestScript.Abort
import QuestScript.Literals
import QuestScript.Token
import QuestScript.ValueType

/-!
# Assembling code

Every construct of the language has its instruction words here. Constructs that need literals
take the pools and give them back. Types of operands are the types on the stack; a short counts
as a long.
-/

namespace QuestScript

/-- Code together with the defect that cut it short, if there was one. -/
structure Fragment where
  code : Code
  defect : Option Defect := none
  deriving DecidableEq, Inhabited

/-- The code of a complete fragment, or its defect. -/
def Fragment.toExcept (fragment : Fragment) : Except Defect Code :=
  match fragment.defect with
  | none => .ok fragment.code
  | some defect => .error defect

namespace Assembly

/-- A built-in operation. -/
def op (opcode : Opcode) : Word :=
  (Instruction.segment5 opcode.code).encode

/-- Pushes an index. -/
def push (index : Nat) : Word :=
  (Instruction.segment0 Instruction.pushOp (UInt32.ofNat index)).encode

/-- Pushes the value of a new integer literal. -/
def pushInt (value : Int32) (pool : Literals) : Code × Literals :=
  let (index, pool) := pool.addInteger value
  ([push index, op .fetchIntLiteral], pool)

/-- Pushes the value of a new float literal. -/
def pushFloat (value : Binary32) (pool : Literals) : Code × Literals :=
  let (index, pool) := pool.addFloat value
  ([push index, op .fetchFloatLiteral], pool)

/-- Pushes the index of a new text literal; the instruction that takes it reads the text. -/
def pushString (value : String) (pool : Literals) : Code × Literals :=
  let (index, pool) := pool.addString value
  ([push index], pool)

/-- Converts the value on top of the stack. -/
def convert (source target : ValueType) : Code :=
  match source.isFloat, target.isFloat with
  | true, false => [op .floatToInt]
  | false, true => [op .intToFloat]
  | _, _ => []

/-- Negates the value on top of the stack. -/
def negate (type : ValueType) : Code :=
  [op (if type.isFloat then .negateFloat else .negateInt)]

/-- Applies an operation to the two topmost values: the integer variant if both are integers, and
otherwise the float variant after the integer among them has been converted. -/
def binary (left right : ValueType) (intOp floatOp : Opcode) : Code :=
  if !left.isFloat && !right.isFloat then [op intOp]
  else
    (if left.isFloat then [] else [op .intToFloat1]) ++
      (if right.isFloat then [] else [op .intToFloat]) ++ [op floatOp]

/-- Adds the two topmost values. -/
def add (left right : ValueType) : Code :=
  binary left right .addInt .addFloat

/-- Subtracts the topmost value from the one below it. -/
def sub (left right : ValueType) : Code :=
  binary left right .subInt .subFloat

/-- Multiplies the two topmost values. -/
def mul (left right : ValueType) : Code :=
  binary left right .mulInt .mulFloat

/-- Divides the second value of the stack by the topmost one. -/
def div (left right : ValueType) : Code :=
  binary left right .divInt .divFloat

/-- Compares the two topmost values and leaves zero or one. -/
def compare (kind : Comparison) (left right : ValueType) : Code :=
  match kind with
  | .equal => binary left right .equalInt .equalFloat
  | .notEqual => binary left right .nonEqualInt .nonEqualFloat
  | .less => binary left right .lessThanInt .lessThanFloat
  | .lessOrEqual => binary left right .lessOrEqualInt .lessOrEqualFloat
  | .greater => binary left right .greaterThanInt .greaterThanFloat
  | .greaterOrEqual => binary left right .greaterOrEqualInt .greaterOrEqualFloat

/-- Of three operations, the one for the given type. -/
def byType (type : ValueType) (short long float : Opcode) : Opcode :=
  match type with
  | .short => short
  | .long => long
  | .float => float

/-- Stores a value, given by its code and type, in a local variable. -/
def assignToLocal (type : ValueType) (index : Nat) (value : Code) (valueType : ValueType) : Code :=
  push index :: value ++ convert valueType type ++
    [op (byType type .storeLocalShort .storeLocalLong .storeLocalFloat)]

/-- Fetches a local variable. -/
def fetchLocal (type : ValueType) (index : Nat) : Code :=
  [push index, op (byType type .fetchLocalShort .fetchLocalLong .fetchLocalFloat)]

/-- Stores a value in a global variable. -/
def assignToGlobal (type : ValueType) (name : String) (value : Code) (valueType : ValueType)
    (pool : Literals) : Code × Literals :=
  let (target, pool) := pushString name pool
  (target ++ value ++ convert valueType type ++
    [op (byType type .storeGlobalShort .storeGlobalLong .storeGlobalFloat)], pool)

/-- Fetches a global variable. -/
def fetchGlobal (type : ValueType) (name : String) (pool : Literals) : Code × Literals :=
  let (source, pool) := pushString name pool
  (source ++ [op (byType type .fetchGlobalShort .fetchGlobalLong .fetchGlobalFloat)], pool)

/-- Pushes the indices of a member name and of the object or script it belongs to. -/
def pushMember (name id : String) (pool : Literals) : Code × Literals :=
  let (member, pool) := pushString name pool
  let (owner, pool) := pushString id pool
  (member ++ owner, pool)

/-- Stores a value in a member variable, of a global script or of an object's script. -/
def assignToMember (type : ValueType) (name id : String) (value : Code) (valueType : ValueType)
    (global : Bool) (pool : Literals) : Code × Literals :=
  let (target, pool) := pushMember name id pool
  let opcode :=
    if global then
      byType type .storeGlobalMemberShort .storeGlobalMemberLong .storeGlobalMemberFloat
    else byType type .storeMemberShort .storeMemberLong .storeMemberFloat
  (target ++ value ++ convert valueType type ++ [op opcode], pool)

/-- Fetches a member variable, of a global script or of an object's script. -/
def fetchMember (type : ValueType) (name id : String) (global : Bool) (pool : Literals) :
    Code × Literals :=
  let (source, pool) := pushMember name id pool
  let opcode :=
    if global then
      byType type .fetchGlobalMemberShort .fetchGlobalMemberLong .fetchGlobalMemberFloat
    else byType type .fetchMemberShort .fetchMemberLong .fetchMemberFloat
  (source ++ [op opcode], pool)

/-- Jumps by `offset` words, counted from the jump itself. A jump to itself is a defect. -/
def jump (offset : Int) : Fragment :=
  if offset = 0 then ⟨[], some .infiniteLoop⟩
  else
    let distance := UInt32.ofNat offset.natAbs
    if 0 < offset then ⟨[(Instruction.segment0 Instruction.jumpForwardOp distance).encode], none⟩
    else ⟨[(Instruction.segment0 Instruction.jumpBackwardOp distance).encode], none⟩

/-- Jumps by `offset` words if the topmost value is zero. A backward offset is counted from the
skipping instruction in front of the jump. -/
def jumpOnZero (offset : Int) : Fragment :=
  let target := jump (if offset < 0 then offset - 1 else offset)
  ⟨op .skipOnNonZero :: target.code, target.defect⟩

/-- Shows a message box. The number of buttons has to fit its field of eight bits. -/
def message (text : String) (buttons : Nat) (pool : Literals) : Fragment × Literals :=
  if 256 ≤ buttons then (⟨[], some .tooManyButtons⟩, pool)
  else
    let (format, pool) := pushString text pool
    let box := (Instruction.segment3 Instruction.messageBoxOp (UInt32.ofNat buttons)).encode
    (⟨format ++ [box], none⟩, pool)

/-- Shows a value on the console. -/
def report (format : String) (pool : Literals) : Code × Literals :=
  let (code, pool) := pushString format pool
  (code ++ [op .report], pool)

/-- An operation on the object `id`, or on the script's own object if `id` is empty. -/
def withReference (id : String) (plain explicit : Opcode) (pool : Literals) : Code × Literals :=
  if id.isEmpty then ([op plain], pool)
  else
    let (object, pool) := pushString id pool
    (object ++ [op explicit], pool)

/-- Starts a script. -/
def startScript (id : String) : Literals → Code × Literals :=
  withReference id .startScript .startScriptExplicit

/-- Measures a distance. -/
def getDistance (id : String) : Literals → Code × Literals :=
  withReference id .getDistance .getDistanceExplicit

/-- Asks whether an object is disabled. -/
def getDisabled (id : String) : Literals → Code × Literals :=
  withReference id .getDisabled .getDisabledExplicit

/-- Enables an object. -/
def enable (id : String) : Literals → Code × Literals :=
  withReference id .enable .enableExplicit

/-- Disables an object. -/
def disable (id : String) : Literals → Code × Literals :=
  withReference id .disable .disableExplicit

/-! ### Literals are only added -/

@[simp] theorem within_push_int (value : Int32) (pool : Literals) :
    pool.Within (pushInt value pool).2 :=
  pool.within_add_integer value

@[simp] theorem within_push_float (value : Binary32) (pool : Literals) :
    pool.Within (pushFloat value pool).2 :=
  pool.within_add_float value

@[simp] theorem within_push_string (value : String) (pool : Literals) :
    pool.Within (pushString value pool).2 :=
  pool.within_add_string value

@[simp] theorem within_assign_to_global (type : ValueType) (name : String) (value : Code)
    (valueType : ValueType) (pool : Literals) :
    pool.Within (assignToGlobal type name value valueType pool).2 :=
  pool.within_add_string name

@[simp] theorem within_fetch_global (type : ValueType) (name : String) (pool : Literals) :
    pool.Within (fetchGlobal type name pool).2 :=
  pool.within_add_string name

theorem within_push_member (name id : String) (pool : Literals) :
    pool.Within (pushMember name id pool).2 :=
  (pool.within_add_string name).trans ((pool.addString name).2.within_add_string id)

@[simp] theorem within_assign_to_member (type : ValueType) (name id : String) (value : Code)
    (valueType : ValueType) (global : Bool) (pool : Literals) :
    pool.Within (assignToMember type name id value valueType global pool).2 :=
  within_push_member name id pool

@[simp] theorem within_fetch_member (type : ValueType) (name id : String) (global : Bool)
    (pool : Literals) : pool.Within (fetchMember type name id global pool).2 :=
  within_push_member name id pool

@[simp] theorem within_message (text : String) (buttons : Nat) (pool : Literals) :
    pool.Within (message text buttons pool).2 := by
  unfold message
  split
  · exact .refl pool
  · exact pool.within_add_string text

@[simp] theorem within_report (format : String) (pool : Literals) :
    pool.Within (report format pool).2 :=
  pool.within_add_string format

@[simp] theorem within_with_reference (id : String) (plain explicit : Opcode) (pool : Literals) :
    pool.Within (withReference id plain explicit pool).2 := by
  unfold withReference
  split
  · exact .refl pool
  · exact pool.within_add_string id

attribute [simp] startScript getDistance getDisabled enable disable

end Assembly

end QuestScript
