import QuestScript.Environment.Basic
import QuestScript.Text.Blank
import QuestScript.Text.Digits
import QuestScript.Text.Quoted

/-!
# Descriptions of environments

An environment file describes an environment with names in any case and operation numbers as
numbers or as text. `Description.build` brings the names to lower case and registers the
functions and instructions, functions first, in the order of the file.
-/

namespace QuestScript

/-- An operation number in an environment file. -/
inductive OpcodeValue where
  | number (value : UInt32)
  | text (value : String)
  deriving DecidableEq, Inhabited

namespace OpcodeValue

/-- The number of 32 bits written in the given base, possibly after a plus sign. -/
def readNumber? (base : Nat) (cs : List Char) : Option UInt32 := do
  let cs := match cs with
    | '+' :: rest => rest
    | _ => cs
  if cs.isEmpty then none
  else
    let digits ← cs.mapM (Text.digitValue? base)
    let value := digits.foldl (· * base + ·) 0
    if value < Nat.pow 2 32 then some (UInt32.ofNat value) else none

/-- The operation number, if the text is one: in base sixteen behind `0x`, else in base ten. -/
def value? : OpcodeValue → Option UInt32
  | .number value => some value
  | .text value =>
    match Text.trimBlank value.toList with
    | '0' :: 'x' :: digits | '0' :: 'X' :: digits => readNumber? 16 digits
    | digits => readNumber? 10 digits

/-- The value as it stands in an error. -/
def shown : OpcodeValue → String
  | .number value => s!"Number({value})"
  | .text value => "Text(" ++ Text.quoted value ++ ")"

end OpcodeValue

/-- A function of the host as described. -/
structure FunctionEntry where
  keyword : String
  returns : ValueType
  arguments : String := ""
  opcode : OpcodeValue
  opcodeExplicit : Option OpcodeValue := none
  deriving DecidableEq, Inhabited

/-- An instruction of the host as described. -/
structure InstructionEntry where
  keyword : String
  arguments : String := ""
  opcode : OpcodeValue
  opcodeExplicit : Option OpcodeValue := none
  deriving DecidableEq, Inhabited

/-- The contents of an environment file. -/
structure Description where
  canDeclareLocals : Bool := true
  ids : List String := []
  globals : List (String × ValueType) := []
  members : List (String × MemberTable) := []
  functions : List FunctionEntry := []
  instructions : List InstructionEntry := []
  deriving DecidableEq, Inhabited

/-- Why a description is no environment. -/
inductive BuildError where
  | invalidOpcode (keyword : String) (value : OpcodeValue)
  | invalidExplicitOpcode (keyword : String) (value : OpcodeValue)
  | function (keyword : String) (cause : ExtensionError)
  | instruction (keyword : String) (cause : ExtensionError)
  deriving DecidableEq, Inhabited

/-- The wording of an error: what was being done, then the cause. -/
def BuildError.chain : BuildError → List String
  | .invalidOpcode keyword value => ["`" ++ keyword ++ "`: invalid opcode " ++ value.shown]
  | .invalidExplicitOpcode keyword value =>
    ["`" ++ keyword ++ "`: invalid explicit opcode " ++ value.shown]
  | .function keyword cause => ["Registering function `" ++ keyword ++ "`", cause.message]
  | .instruction keyword cause => ["Registering instruction `" ++ keyword ++ "`", cause.message]

namespace Description

/-- The operation numbers of an entry. -/
def opcodes (keyword : String) (opcode : OpcodeValue) (explicit : Option OpcodeValue) :
    Except BuildError (UInt32 × Option UInt32) :=
  match opcode.value? with
  | none => .error (.invalidOpcode keyword opcode)
  | some code =>
    match explicit with
    | none => .ok (code, none)
    | some value =>
      match value.value? with
      | none => .error (.invalidExplicitOpcode keyword value)
      | some explicitCode => .ok (code, some explicitCode)

/-- Registers a function. -/
def addFunction (registry : Registry) (entry : FunctionEntry) : Except BuildError Registry := do
  let keyword := Text.toLower entry.keyword
  let (code, explicit) ← opcodes keyword entry.opcode entry.opcodeExplicit
  match Registry.addFunction keyword entry.returns entry.arguments code explicit registry with
  | .ok _ registry => .ok registry
  | .error cause _ => .error (.function keyword cause)

/-- Registers an instruction. -/
def addInstruction (registry : Registry) (entry : InstructionEntry) :
    Except BuildError Registry := do
  let keyword := Text.toLower entry.keyword
  let (code, explicit) ← opcodes keyword entry.opcode entry.opcodeExplicit
  match Registry.addInstruction keyword entry.arguments code explicit registry with
  | .ok _ registry => .ok registry
  | .error cause _ => .error (.instruction keyword cause)

/-- A table with its keys in lower case; of keys that become equal the last one counts. -/
def lowerKeys {α : Type} (table : List (String × α)) : List (String × α) :=
  table.foldl (fun done (key, value) => putEntry done (Text.toLower key) value) []

/-- The registry of all functions and instructions, functions first. -/
def registry (description : Description) : Except BuildError Registry := do
  let functions ← description.functions.foldlM addFunction {}
  description.instructions.foldlM addInstruction functions

/-- The environment that is described. -/
def build (description : Description) : Except BuildError Environment := do
  let extensions ← description.registry
  pure {
    canDeclareLocals := description.canDeclareLocals
    ids := (description.ids.map Text.toLower).eraseDups
    globals := lowerKeys description.globals
    members := lowerKeys (description.members.map fun (id, table) =>
      (id, { table with types := lowerKeys table.types }))
    extensions }

end Description

end QuestScript
