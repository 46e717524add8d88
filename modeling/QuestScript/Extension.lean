import QuestScript.Assembly
import QuestScript.Dictionary
import QuestScript.Text.LowerCase

/-!
# Functions and instructions of the host

The host adds functions, which return a value, and instructions, which do not. Each has a
keyword, an argument signature and an operation number, and possibly a second operation number
for calls on a given object. The registry numbers its keywords `-1`, `-2`, … in the order of
registration and keeps functions and instructions in two tables.
-/

namespace QuestScript

/-- The instruction format of a call. A call with optional arguments carries their number. -/
inductive CallFormat where
  | three
  | five
  deriving DecidableEq, Inhabited

namespace CallFormat

/-- The format that a signature asks for: a stroke announces optional arguments. -/
def ofSignature (signature : String) : CallFormat :=
  if signature.toList.contains '/' then .three else .five

/-- The operation number lies in the host's part of the format. -/
def admits : CallFormat → UInt32 → Bool
  | .three, code => 0x20000 ≤ code && code ≤ 0x2ffff
  | .five, code => 0x2000000 ≤ code && code ≤ 0x3ffffff

/-- The name of the format in an error. -/
def text : CallFormat → String
  | .three => "Three"
  | .five => "Five"

end CallFormat

/-- Why an entry cannot be registered. -/
inductive ExtensionError where
  | opcodeOutOfRange (keyword : String) (code : UInt32) (format : CallFormat)
  | duplicateKeyword (keyword : String)
  | invalidReturnType (keyword : String)
  deriving DecidableEq, Inhabited

/-- The wording of an error. -/
def ExtensionError.message : ExtensionError → String
  | .opcodeOutOfRange keyword code format =>
    "opcode " ++ Instruction.markedHex code ++ " of `" ++ keyword ++ "` is outside the " ++
      format.text ++ " segment range"
  | .duplicateKeyword keyword => "keyword `" ++ keyword ++ "` is already registered"
  | .invalidReturnType keyword => "function `" ++ keyword ++ "` must return long or float"

/-- A function of the host, or an instruction if nothing is returned. -/
structure Extension where
  returns : Option ValueType
  arguments : String
  code : UInt32
  explicitCode : Option UInt32
  format : CallFormat
  deriving DecidableEq, Inhabited

namespace Extension

/-- The entry can be called on a given object. -/
def hasExplicit (extension : Extension) : Bool :=
  extension.explicitCode.isSome

/-- An entry whose operation numbers fit the format of its signature. -/
def build (keyword : String) (returns : Option ValueType) (arguments : String) (code : UInt32)
    (explicitCode : Option UInt32) : Except ExtensionError Extension :=
  let format := CallFormat.ofSignature arguments
  match (code :: explicitCode.toList).find? (!format.admits ·) with
  | some wrong => .error (.opcodeOutOfRange keyword wrong format)
  | none => .ok ⟨returns, arguments, code, explicitCode, format⟩

/-- The instruction word of a call with the given operation number. -/
def callWord (extension : Extension) (opcode : UInt32) (optionals : Nat) : Fragment :=
  match extension.format with
  | .three =>
    if 256 ≤ optionals then ⟨[], some .tooManyOptionalArguments⟩
    else ⟨[(Instruction.segment3 opcode (UInt32.ofNat optionals)).encode], none⟩
  | .five => ⟨[(Instruction.segment5 opcode).encode], none⟩

/-- The code of a call whose arguments are on the stack, on the object `id` or, if `id` is empty,
on the script's own object. -/
def call (extension : Extension) (id : String) (optionals : Nat) (pool : Literals) :
    Fragment × Literals :=
  if optionals ≠ 0 ∧ extension.format ≠ .three then (⟨[], some .noOptionalArguments⟩, pool)
  else if id.isEmpty then (extension.callWord extension.code optionals, pool)
  else
    match extension.explicitCode with
    | none => (⟨[], some .noExplicitReference⟩, pool)
    | some opcode =>
      let (index, pool) := pool.addString id
      let (object, pool) := Assembly.pushInt (Int32.ofNat index) pool
      let word := extension.callWord opcode optionals
      (⟨object ++ word.code, word.defect⟩, pool)

@[simp] theorem within_call (extension : Extension) (id : String) (optionals : Nat)
    (pool : Literals) : pool.Within (extension.call id optionals pool).2 := by
  unfold call
  split
  · exact .refl pool
  · split
    · exact .refl pool
    · split
      · exact .refl pool
      · exact (pool.within_add_string id).trans (Assembly.within_push_int _ _)

end Extension

/-- The functions and instructions of the host. A keyword, in lower case, has a number, and under
this number stands a function or an instruction. -/
structure Registry where
  /-- The number for the next keyword. -/
  nextCode : Int := -1
  keywords : List (String × Int) := []
  functions : List (Int × Extension) := []
  instructions : List (Int × Extension) := []
  deriving DecidableEq, Inhabited

/-- A request to the registry. One that is refused still has a registry behind it. -/
abbrev Registering := EStateM ExtensionError Registry

namespace Registry

/-- The number of a keyword, which has to be in lower case. -/
def codeOf? (registry : Registry) (keyword : String) : Option Int :=
  registry.keywords.lookup keyword

/-- The function with a number. -/
def function? (registry : Registry) (code : Int) : Option Extension :=
  registry.functions.lookup code

/-- The instruction with a number. -/
def instruction? (registry : Registry) (code : Int) : Option Extension :=
  registry.instructions.lookup code

/-- Gives the next number to a keyword that is not in use. -/
def allocate (keyword : String) : Registering Int := do
  let keyword := Text.toLower keyword
  if ((← get).codeOf? keyword).isSome then throw (.duplicateKeyword keyword)
  let code := (← get).nextCode
  modify fun registry => { registry with nextCode := code - 1 }
  modify fun registry => { registry with keywords := putEntry registry.keywords keyword code }
  pure code

/-- Adds a function, which returns a long or a float. -/
def addFunction (keyword : String) (returns : ValueType) (arguments : String) (code : UInt32)
    (explicitCode : Option UInt32) : Registering Unit := do
  if returns = .short then throw (.invalidReturnType keyword)
  let function ← MonadExcept.ofExcept
    (Extension.build keyword (some returns) arguments code explicitCode)
  let number ← allocate keyword
  modify fun registry =>
    { registry with functions := putEntry registry.functions number function }

/-- Adds an instruction. -/
def addInstruction (keyword arguments : String) (code : UInt32) (explicitCode : Option UInt32) :
    Registering Unit := do
  let instruction ← MonadExcept.ofExcept
    (Extension.build keyword none arguments code explicitCode)
  let number ← allocate keyword
  modify fun registry =>
    { registry with instructions := putEntry registry.instructions number instruction }

/-- The code of a call of the function with a number. -/
def callFunction (registry : Registry) (code : Int) (id : String) (optionals : Nat)
    (pool : Literals) : Fragment × Literals :=
  match registry.function? code with
  | some function => function.call id optionals pool
  | none => (⟨[], some .unknownFunction⟩, pool)

/-- The code of a call of the instruction with a number. -/
def callInstruction (registry : Registry) (code : Int) (id : String) (optionals : Nat)
    (pool : Literals) : Fragment × Literals :=
  match registry.instruction? code with
  | some instruction => instruction.call id optionals pool
  | none => (⟨[], some .unknownInstruction⟩, pool)

@[simp] theorem within_call_function (registry : Registry) (code : Int) (id : String)
    (optionals : Nat) (pool : Literals) :
    pool.Within (registry.callFunction code id optionals pool).2 := by
  unfold callFunction
  split
  · exact Extension.within_call _ _ _ _
  · exact .refl pool

@[simp] theorem within_call_instruction (registry : Registry) (code : Int) (id : String)
    (optionals : Nat) (pool : Literals) :
    pool.Within (registry.callInstruction code id optionals pool).2 := by
  unfold callInstruction
  split
  · exact Extension.within_call _ _ _ _
  · exact .refl pool

/-- Every keyword that is recognised: those of the language in the order of their numbers, then
those of the host in the order of their characters. -/
def allKeywords (registry : Registry) : List String :=
  Builtin.all.map Builtin.spelling ++
    (registry.keywords.map (·.1)).mergeSort fun a b => !(b < a)

/-- The keyword with the given spelling in lower case. The language goes before the host. -/
def keyword? (registry : Registry) (word : String) : Option Keyword :=
  match Builtin.ofSpelling? word with
  | some builtin => some (.builtin builtin)
  | none => (registry.codeOf? word).map .extension

end Registry

end QuestScript
