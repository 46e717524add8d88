import QuestScript.Environment.Description
import QuestScript.Json

/-!
# Environment files

An environment file is a JSON text. Records may also be written as lists of their fields in
order; fields with a default may be left out, and unknown members are passed over.
-/

namespace QuestScript

namespace Json

/-- The type of a variable. -/
def valueType : Decoder ValueType :=
  oneOf ValueType.ofName?

/-- How deep brackets may go in the place of an operation number, which stands inside the file,
one of its lists and an entry. -/
def opcodeDepth : Nat := 125

/-- An operation number, as a number of 32 bits or as text. -/
def opcodeValue : Decoder OpcodeValue := do
  match ← anyValue opcodeDepth with
  | .natural value =>
    if value < Nat.pow 2 32 then pure (.number (UInt32.ofNat value)) else throw .mismatch
  | .text value => pure (.text value)
  | .other => throw .mismatch

/-- The fields of a script with members that have been read. -/
structure MemberFields where
  reference : Option Bool := none
  types : Option (List (String × ValueType)) := none

/-- The script with the fields that have been read, and defaults for the others. -/
def MemberFields.finish (fields : MemberFields) : MemberTable :=
  ⟨fields.reference.getD true, fields.types.getD []⟩

/-- A member of a script. -/
def MemberFields.member (fields : MemberFields) (key : String) : Decoder MemberFields := do
  match key with
  | "reference" => pure { fields with reference := ← once fields.reference bool }
  | "variables" => pure { fields with types := ← once fields.types (table valueType) }
  | _ =>
    unknownMember
    pure fields

/-- The member variables of one script. -/
def memberTable : Decoder MemberTable :=
  record
    (do
      let reference ← field? true bool
      let types ← field? false (table valueType)
      pure (MemberFields.finish ⟨reference, types⟩))
    (do pure (← members MemberFields.member (← budget) true {}).finish)

/-- The fields of a function or an instruction that have been read. -/
structure EntryFields where
  keyword : Option String := none
  returns : Option ValueType := none
  arguments : Option String := none
  opcode : Option OpcodeValue := none
  opcodeExplicit : Option (Option OpcodeValue) := none

/-- The function with the fields that have been read. -/
def EntryFields.function (fields : EntryFields) : Decoder FunctionEntry := do
  let keyword ← required fields.keyword
  let returns ← required fields.returns
  let opcode ← required fields.opcode
  pure ⟨keyword, returns, fields.arguments.getD "", opcode, fields.opcodeExplicit.getD none⟩

/-- The instruction with the fields that have been read. -/
def EntryFields.instruction (fields : EntryFields) : Decoder InstructionEntry := do
  let keyword ← required fields.keyword
  let opcode ← required fields.opcode
  pure ⟨keyword, fields.arguments.getD "", opcode, fields.opcodeExplicit.getD none⟩

/-- A member of a function or, unless it is the return type, of an instruction. -/
def EntryFields.member (isFunction : Bool) (fields : EntryFields) (key : String) :
    Decoder EntryFields := do
  match key with
  | "keyword" => pure { fields with keyword := ← once fields.keyword string }
  | "arguments" => pure { fields with arguments := ← once fields.arguments string }
  | "opcode" => pure { fields with opcode := ← once fields.opcode opcodeValue }
  | "opcode_explicit" =>
    pure { fields with opcodeExplicit := ← once fields.opcodeExplicit (nullable opcodeValue) }
  | "returns" =>
    if isFunction then pure { fields with returns := ← once fields.returns valueType }
    else
      unknownMember
      pure fields
  | _ =>
    unknownMember
    pure fields

/-- The fields that functions and instructions end with, written as a list. -/
def EntryFields.lastFields (fields : EntryFields) : Decoder EntryFields := do
  let arguments ← field? false string
  let opcode ← required (← field? false opcodeValue)
  let opcodeExplicit ← field? false (nullable opcodeValue)
  pure { fields with arguments, opcode, opcodeExplicit }

/-- A function of the host. -/
def functionEntry : Decoder FunctionEntry :=
  record
    (do
      let keyword ← required (← field? true string)
      let returns ← required (← field? false valueType)
      (← EntryFields.lastFields { keyword, returns }).function)
    (do (← members (EntryFields.member true) (← budget) true {}).function)

/-- An instruction of the host. -/
def instructionEntry : Decoder InstructionEntry :=
  record
    (do
      let keyword ← required (← field? true string)
      (← EntryFields.lastFields { keyword }).instruction)
    (do (← members (EntryFields.member false) (← budget) true {}).instruction)

/-- The fields of a file that have been read. -/
structure FileFields where
  canDeclareLocals : Option Bool := none
  ids : Option (List String) := none
  globals : Option (List (String × ValueType)) := none
  members : Option (List (String × MemberTable)) := none
  functions : Option (List FunctionEntry) := none
  instructions : Option (List InstructionEntry) := none

/-- The description with the fields that have been read, and defaults for the others. -/
def FileFields.finish (fields : FileFields) : Description where
  canDeclareLocals := fields.canDeclareLocals.getD true
  ids := fields.ids.getD []
  globals := fields.globals.getD []
  members := fields.members.getD []
  functions := fields.functions.getD []
  instructions := fields.instructions.getD []

/-- A member of a file. -/
def FileFields.member (fields : FileFields) (key : String) : Decoder FileFields := do
  match key with
  | "can_declare_locals" =>
    pure { fields with canDeclareLocals := ← once fields.canDeclareLocals bool }
  | "ids" => pure { fields with ids := ← once fields.ids (list string) }
  | "globals" => pure { fields with globals := ← once fields.globals (table valueType) }
  | "members" => pure { fields with members := ← once fields.members (table memberTable) }
  | "functions" => pure { fields with functions := ← once fields.functions (list functionEntry) }
  | "instructions" =>
    pure { fields with instructions := ← once fields.instructions (list instructionEntry) }
  | _ =>
    unknownMember
    pure fields

/-- The contents of an environment file. -/
def description : Decoder Description :=
  record
    (do
      let canDeclareLocals ← field? true bool
      let ids ← field? false (list string)
      let globals ← field? false (table valueType)
      let members ← field? false (table memberTable)
      let functions ← field? false (list functionEntry)
      let instructions ← field? false (list instructionEntry)
      pure (FileFields.finish ⟨canDeclareLocals, ids, globals, members, functions, instructions⟩))
    (do pure (← members FileFields.member (← budget) true {}).finish)

end Json

/-- Why an environment file cannot be used. -/
inductive EnvironmentError where
  | json (fault : Json.Fault)
  | build (cause : BuildError)
  deriving DecidableEq, Inhabited

/-- The wording of an error: what was being done, then the cause. -/
def EnvironmentError.chain : EnvironmentError → List String
  | .json fault => [fault.message]
  | .build cause => cause.chain

/-- The environment that a JSON text describes. -/
def Environment.load (text : String) : Except EnvironmentError Environment := do
  let description ← (Json.readAll Json.description text).mapError .json
  description.build.mapError .build

end QuestScript
