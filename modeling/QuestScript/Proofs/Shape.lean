import QuestScript.Environment.Basic
import QuestScript.Locals
import QuestScript.MessageFormat
import QuestScript.Proofs.Flow
import QuestScript.Proofs.Registry

/-!
# Shapes of the stack

What is known of the stack at each position of some code. A shape is a list of slots, the topmost
first: raw indices, longs and floats. `Effect` says what a plain instruction finds on the stack and
what it leaves there, and `Shapes` says that the shapes at all positions fit the words between
them, along every way that the machine may go.

`Typed` code leads from one shape to another. The main statements are that typed code can be put
together: one piece behind another (`Typed.append`), on a deeper stack (`Typed.frame`), and as the
parts of a conditional or a loop (`Typed.conditional`, `Typed.loop`).
-/

namespace QuestScript

/-- What is known of a value on the stack. -/
inductive Slot where
  /-- An index that an instruction has pushed. -/
  | index (n : Nat)
  | long
  | float
  deriving DecidableEq, Inhabited

/-- What is known of the stack, the topmost value first. -/
abbrev Shape := List Slot

/-- What code is run with: the environment, the literals and the local variables. -/
structure Surroundings where
  env : Environment
  literals : Literals
  locals : Locals

/-- What an instruction asks of a value on the stack. -/
inductive Kind where
  /-- The index of a text literal. -/
  | text
  /-- The index of an integer literal. -/
  | integer
  /-- The index of a float literal. -/
  | decimal
  /-- The index of a local variable of the type. -/
  | variable (type : ValueType)
  | long
  | float
  deriving DecidableEq, Inhabited

namespace Kind

/-- The kind of the values of a type. -/
def ofType (type : ValueType) : Kind :=
  if type.isFloat then .float else .long

/-- The kind of the argument that a letter of a signature stands for, unless it is dropped. -/
def ofLetter? : Char → Option Kind
  | 'S' | 'c' => some .text
  | 's' | 'l' => some .long
  | 'f' => some .float
  | _ => none

/-- The value is of the kind. -/
def Describes (c : Surroundings) : Kind → Slot → Prop
  | .text, .index n => n < c.literals.strings.length
  | .integer, .index n => n < c.literals.integers.length
  | .decimal, .index n => n < c.literals.floats.length
  | .variable type, .index n => n < (c.locals.names type).length
  | .long, .long => True
  | .float, .float => True
  | _, _ => False

end Kind

/-- The slot of a value of a type. -/
def Slot.ofType (type : ValueType) : Slot :=
  if type.isFloat then .float else .long

/-- The value is a number, and no index. -/
def Slot.IsValue (slot : Slot) : Prop :=
  slot = .long ∨ slot = .float

namespace Kind

variable (c : Surroundings) (type : ValueType)

theorem describes_of_type : (ofType type).Describes c (.ofType type) := by
  cases type <;> trivial

variable {c type}

theorem eq_of_type {slot : Slot} (h : (ofType type).Describes c slot) : slot = .ofType type := by
  cases type <;> cases slot <;> simp_all [ofType, Describes, ValueType.isFloat, Slot.ofType]

theorem is_value {slot : Slot} (h : (ofType type).Describes c slot) : slot.IsValue := by
  rw [eq_of_type h]
  cases type
  · exact Or.inl rfl
  · exact Or.inl rfl
  · exact Or.inr rfl

end Kind

namespace Signature

/-- The kinds of the arguments that have to be there, the first one first. -/
def mandatory (signature : String) : List Kind :=
  (signature.toList.takeWhile (· != '/')).filterMap Kind.ofLetter?

/-- The kinds of the arguments that may follow. -/
def optional (signature : String) : List Kind :=
  (signature.toList.dropWhile (· != '/')).filterMap Kind.ofLetter?

/-- The kinds of all arguments of a call with this many optional ones. -/
def kinds (signature : String) (optionals : Nat) : List Kind :=
  mandatory signature ++ (optional signature).take optionals

end Signature

/-- What a built-in operation takes from the stack, the topmost value first, and the types of what
it leaves. The operations that are missing here have rules of their own. -/
def Opcode.effect? : Opcode → Option (List Kind × List ValueType)
  | .storeLocalShort => some ([.long, .variable .short], [])
  | .storeLocalLong => some ([.long, .variable .long], [])
  | .storeLocalFloat => some ([.float, .variable .float], [])
  | .fetchLocalShort => some ([.variable .short], [.long])
  | .fetchLocalLong => some ([.variable .long], [.long])
  | .fetchLocalFloat => some ([.variable .float], [.float])
  | .fetchIntLiteral => some ([.integer], [.long])
  | .fetchFloatLiteral => some ([.decimal], [.float])
  | .intToFloat => some ([.long], [.float])
  | .floatToInt => some ([.float], [.long])
  | .negateInt => some ([.long], [.long])
  | .negateFloat => some ([.float], [.float])
  | .addInt | .subInt | .mulInt | .divInt
  | .equalInt | .nonEqualInt | .lessThanInt | .lessOrEqualInt | .greaterThanInt
  | .greaterOrEqualInt => some ([.long, .long], [.long])
  | .addFloat | .subFloat | .mulFloat | .divFloat => some ([.float, .float], [.float])
  | .equalFloat | .nonEqualFloat | .lessThanFloat | .lessOrEqualFloat | .greaterThanFloat
  | .greaterOrEqualFloat => some ([.float, .float], [.long])
  | .squareRoot => some ([.float], [.float])
  | .random => some ([.long], [.float])
  | .menuMode | .getDisabled => some ([], [.long])
  | .getSecondsPassed => some ([], [.float])
  | .storeGlobalShort | .storeGlobalLong => some ([.long, .text], [])
  | .storeGlobalFloat => some ([.float, .text], [])
  | .fetchGlobalShort | .fetchGlobalLong => some ([.text], [.long])
  | .fetchGlobalFloat => some ([.text], [.float])
  | .storeMemberShort | .storeMemberLong | .storeGlobalMemberShort | .storeGlobalMemberLong =>
    some ([.long, .text, .text], [])
  | .storeMemberFloat | .storeGlobalMemberFloat => some ([.float, .text, .text], [])
  | .fetchMemberShort | .fetchMemberLong | .fetchGlobalMemberShort | .fetchGlobalMemberLong =>
    some ([.text, .text], [.long])
  | .fetchMemberFloat | .fetchGlobalMemberFloat => some ([.text, .text], [.float])
  | .enable | .disable => some ([], [])
  | .startScript | .stopScript | .enableExplicit | .disableExplicit => some ([.text], [])
  | .startScriptExplicit => some ([.text, .text], [])
  | .scriptRunning | .getDisabledExplicit => some ([.text], [.long])
  | .getDistance => some ([.text], [.float])
  | .getDistanceExplicit => some ([.text, .text], [.float])
  | .intToFloat1 | .floatToInt1 | .report | .exit | .skipOnZero | .skipOnNonZero => none

/-- The instruction that calls an entry of the registry under an operation number. -/
def Extension.instruction (extension : Extension) (opcode optionals : UInt32) : Instruction :=
  match extension.format with
  | .three => .segment3 opcode optionals
  | .five => .segment5 opcode

/-- The operation number calls the entry, and this is what it finds on the stack above the
arguments: nothing, or the number of the object that the call is for. -/
def Extension.Selects (extension : Extension) (opcode : UInt32) (object : Shape) : Prop :=
  (opcode = extension.code ∧ object = []) ∨
    (extension.explicitCode = some opcode ∧ object = [.long])

/-- What a plain instruction finds on the stack and what it leaves there. -/
inductive Effect (c : Surroundings) : Instruction → Shape → Shape → Prop where
  | push (operand : UInt32) (below : Shape) :
      Effect c (.segment0 Instruction.pushOp operand) below (.index operand.toNat :: below)
  | builtin {opcode : Opcode} {kinds : List Kind} {types : List ValueType} {taken : Shape}
      (heffect : opcode.effect? = some (kinds, types))
      (htaken : List.Forall₂ (Kind.Describes c) kinds taken) (below : Shape) :
      Effect c (.segment5 opcode.code) (taken ++ below) (types.map Slot.ofType ++ below)
  /-- Converts the value below the topmost one. -/
  | intToFloat1 (top : Slot) (below : Shape) :
      Effect c (.segment5 Opcode.intToFloat1.code) (top :: .long :: below) (top :: .float :: below)
  | floatToInt1 (top : Slot) (below : Shape) :
      Effect c (.segment5 Opcode.floatToInt1.code) (top :: .float :: below) (top :: .long :: below)
  /-- Takes a format and the values that the format asks for. -/
  | report {format : Nat} {text : String} {values : Shape}
      (hformat : c.literals.strings[format]? = some text)
      (hvalues : List.Forall₂ (Kind.Describes c)
        (Signature.mandatory (MessageFormat.signature text)) values) (below : Shape) :
      Effect c (.segment5 Opcode.report.code) (.index format :: (values ++ below)) below
  /-- Takes a format, the texts of the buttons, and the values that the format asks for. -/
  | message {buttons : UInt32} {format : Nat} {text : String} {labels values : Shape}
      (hformat : c.literals.strings[format]? = some text)
      (hlabels : List.Forall₂ (Kind.Describes c) (List.replicate buttons.toNat .text) labels)
      (hvalues : List.Forall₂ (Kind.Describes c)
        (Signature.mandatory (MessageFormat.signature text)) values) (below : Shape) :
      Effect c (.segment3 Instruction.messageBoxOp buttons)
        (.index format :: (labels ++ (values ++ below))) below
  /-- Takes the object, if the call is for one, and the arguments. -/
  | call {keyword : String} {extension : Extension} {opcode optionals : UInt32}
      {object arguments : Shape} (hentry : c.env.extensions.Has keyword extension)
      (hselects : extension.Selects opcode object)
      (hoptionals : optionals.toNat ≤ (Signature.optional extension.arguments).length)
      (harguments : List.Forall₂ (Kind.Describes c)
        (Signature.kinds extension.arguments optionals.toNat) arguments) (below : Shape) :
      Effect c (extension.instruction opcode optionals) (object ++ (arguments ++ below))
        (extension.returns.toList.map Slot.ofType ++ below)

/-- The shapes in front of a word and wherever the machine may go after it fit the word. No way
leads further than `bound`. -/
def WordTyped (c : Surroundings) (bound : Nat) (shape : Nat → Shape) (position : Nat) (w : Word) :
    Prop :=
  ∃ instruction, Instruction.decode? w = some instruction ∧
    match Control.ofInstruction instruction with
    | .plain =>
      position + 1 ≤ bound ∧ Effect c instruction (shape position) (shape (position + 1))
    | .jump offset =>
      ∃ target, target ≤ bound ∧ (target : Int) = position + offset ∧
        shape target = shape position
    | .skip _ =>
      position + 2 ≤ bound ∧ (∃ value, Slot.IsValue value ∧
        shape position = value :: shape (position + 1)) ∧
        shape (position + 2) = shape (position + 1)
    | .stop => True

/-- The shapes at all positions fit the words of the code. -/
def Shapes (c : Surroundings) (bound : Nat) (code : Code) (shape : Nat → Shape) : Prop :=
  ∀ position w, code[position]? = some w → WordTyped c bound shape position w

/-- The code leads from one shape of the stack to another. -/
def Typed (c : Surroundings) (code : Code) (before after : Shape) : Prop :=
  ∃ shape, shape 0 = before ∧ shape code.length = after ∧ Shapes c code.length code shape

variable {c : Surroundings}

/-! ### Shapes of composed code -/

namespace WordTyped

variable {bound position : Nat} {shape : Nat → Shape} {w : Word}

/-- A word fits wherever the shapes around it are the same. -/
theorem move {bound' : Nat} {shape' : Nat → Shape} (base : Nat)
    (h : WordTyped c bound shape position w) (hposition : position ≤ bound)
    (hshape : ∀ q, q ≤ bound → shape' (base + q) = shape q) (hbound : base + bound ≤ bound') :
    WordTyped c bound' shape' (base + position) w := by
  obtain ⟨instruction, hdecode, h⟩ := h
  refine ⟨instruction, hdecode, ?_⟩
  cases hcontrol : Control.ofInstruction instruction with
  | plain =>
      simp only [hcontrol] at h ⊢
      refine ⟨by omega, ?_⟩
      rw [hshape position hposition, Nat.add_assoc, hshape (position + 1) h.1]
      exact h.2
  | jump offset =>
      simp only [hcontrol] at h ⊢
      obtain ⟨target, htarget, hoffset, hsame⟩ := h
      refine ⟨base + target, by omega, by omega, ?_⟩
      rw [hshape target htarget, hshape position hposition, hsame]
  | skip onZero =>
      simp only [hcontrol] at h ⊢
      obtain ⟨hle, ⟨value, hvalue, hfront⟩, hsame⟩ := h
      rw [Nat.add_assoc, Nat.add_assoc, hshape (position + 1) (by omega), hshape position hposition,
        hshape (position + 2) hle]
      exact ⟨by omega, ⟨value, hvalue, hfront⟩, hsame⟩
  | stop => trivial

theorem of_jump {offset : Int} (target : Nat) (hw : Control.ofWord? w = some (.jump offset))
    (htarget : (target : Int) = position + offset) (hbound : target ≤ bound)
    (hsame : shape target = shape position) : WordTyped c bound shape position w := by
  obtain ⟨instruction, hdecode, hcontrol⟩ := Option.map_eq_some_iff.1 hw
  refine ⟨instruction, hdecode, ?_⟩
  rw [hcontrol]
  exact ⟨target, hbound, htarget, hsame⟩

theorem of_skip {value : Slot} (hvalue : value.IsValue) (hbound : position + 2 ≤ bound)
    (hfront : shape position = value :: shape (position + 1))
    (hsame : shape (position + 2) = shape (position + 1)) :
    WordTyped c bound shape position (Assembly.op .skipOnNonZero) := by
  refine ⟨_, Assembly.decode_op _, ?_⟩
  simp only [Control.ofInstruction, Opcode.of_code?_code, Option.map_some, Option.getD_some,
    Control.ofOpcode]
  exact ⟨hbound, ⟨value, hvalue, hfront⟩, hsame⟩

end WordTyped

/-- The shapes of one piece of code, and from its end on those of another. -/
def splice (length : Nat) (first second : Nat → Shape) (position : Nat) : Shape :=
  if position ≤ length then first position else second (position - length)

theorem splice_of_le {length position : Nat} {first second : Nat → Shape}
    (h : position ≤ length) : splice length first second position = first position :=
  if_pos h

theorem splice_add {length : Nat} {first second : Nat → Shape} (h : first length = second 0)
    (position : Nat) : splice length first second (length + position) = second position := by
  unfold splice
  cases position with
  | zero => rw [if_pos (by omega), Nat.add_zero, h]
  | succ position => rw [if_neg (by omega), Nat.add_sub_cancel_left]

/-- A shape in front of others. -/
def prepend (first : Shape) (shape : Nat → Shape) : Nat → Shape
  | 0 => first
  | position + 1 => shape position

namespace Shapes

variable {bound : Nat} {x y : Code} {first second : Nat → Shape}

/-- Code behind other code. The second piece may lead further than to its own end. -/
theorem append (hx : Shapes c x.length x first) (hy : Shapes c bound y second)
    (hy' : y.length ≤ bound) (hjoin : first x.length = second 0) :
    Shapes c (x.length + bound) (x ++ y) (splice x.length first second) := by
  intro position w hw
  by_cases hlt : position < x.length
  · rw [List.getElem?_append_left hlt] at hw
    have h : WordTyped c (x.length + bound) (splice x.length first second) (0 + position) w :=
      (hx position w hw).move 0 (Nat.le_of_lt hlt)
        (fun q hq => by rw [Nat.zero_add, splice_of_le hq]) (by omega)
    rwa [Nat.zero_add] at h
  · obtain ⟨q, rfl⟩ := Nat.exists_eq_add_of_le (Nat.le_of_not_lt hlt)
    rw [List.getElem?_append_right (by omega), Nat.add_sub_cancel_left] at hw
    have hq := (List.getElem?_eq_some_iff.1 hw).1
    exact (hy q w hw).move x.length (by omega) (fun r _ => splice_add hjoin r) (Nat.le_refl _)

theorem cons {w : Word} {front : Shape} (hw : WordTyped c (bound + 1) (prepend front second) 0 w)
    (hy : Shapes c bound y second) (hy' : y.length ≤ bound) :
    Shapes c (bound + 1) (w :: y) (prepend front second) := by
  intro position v hv
  cases position with
  | zero =>
      cases hv
      exact hw
  | succ position =>
      have hposition := (List.getElem?_eq_some_iff.1 hv).1
      rw [List.length_cons] at hposition
      rw [Nat.add_comm position 1]
      refine (hy position v hv).move 1 (by omega) (fun q _ => ?_) (by omega)
      rw [Nat.add_comm 1 q]
      rfl

/-- Code may lead further than it did. -/
theorem extend {after : Shape} (hx : Shapes c x.length x first) (hend : first x.length = after)
    (hbound : x.length ≤ bound) :
    Shapes c bound x (splice x.length first fun _ => after) := by
  have hnil : Shapes c (bound - x.length) [] fun _ => after := by
    intro position w hw
    simp at hw
  have h := hx.append hnil (Nat.zero_le _) hend
  rwa [List.append_nil, Nat.add_sub_cancel' hbound] at h

end Shapes

namespace Typed

variable {x y : Code} {before between after : Shape}

theorem nil (shape : Shape) : Typed c [] shape shape :=
  ⟨fun _ => shape, rfl, rfl, by intro position w hw; simp at hw⟩

/-- Pieces of code one behind the other. -/
theorem append (hx : Typed c x before between) (hy : Typed c y between after) :
    Typed c (x ++ y) before after := by
  obtain ⟨first, rfl, hend, hx⟩ := hx
  obtain ⟨second, hstart, rfl, hy⟩ := hy
  have hjoin : first x.length = second 0 := hend.trans hstart.symm
  refine ⟨splice x.length first second, splice_of_le (Nat.zero_le _), ?_, ?_⟩
  · rw [List.length_append, splice_add hjoin]
  · rw [List.length_append]
    exact hx.append hy (Nat.le_refl _) hjoin

/-- One plain word. -/
theorem word {w : Word} {instruction : Instruction}
    (hdecode : Instruction.decode? w = some instruction)
    (hplain : Control.ofInstruction instruction = .plain)
    (heffect : Effect c instruction before after) : Typed c [w] before after := by
  refine ⟨prepend before fun _ => after, rfl, rfl, ?_⟩
  refine Shapes.cons ⟨instruction, hdecode, ?_⟩ (by intro position v hv; simp at hv) (Nat.le_refl _)
  rw [hplain]
  exact ⟨Nat.le_refl _, heffect⟩

/-- Behind a word that stops the script the stack may be anything. -/
theorem exit (before after : Shape) : Typed c [Assembly.op .exit] before after := by
  refine ⟨prepend before fun _ => after, rfl, rfl, ?_⟩
  refine Shapes.cons ⟨_, Assembly.decode_op _, ?_⟩ (by intro position v hv; simp at hv)
    (Nat.le_refl _)
  simp [Control.ofInstruction, Opcode.of_code?_code, Control.ofOpcode]

end Typed

/-- What lies deeper on the stack does not matter. -/
theorem Effect.frame {instruction : Instruction} {before after : Shape}
    (h : Effect c instruction before after) (rest : Shape) :
    Effect c instruction (before ++ rest) (after ++ rest) := by
  cases h with
  | push operand => exact .push operand _
  | builtin heffect htaken =>
      simp only [List.append_assoc]
      exact .builtin heffect htaken _
  | intToFloat1 top => exact .intToFloat1 top _
  | floatToInt1 top => exact .floatToInt1 top _
  | report hformat hvalues =>
      simp only [List.cons_append, List.append_assoc]
      exact .report hformat hvalues _
  | message hformat hlabels hvalues =>
      simp only [List.cons_append, List.append_assoc]
      exact .message hformat hlabels hvalues _
  | call hentry hselects hoptionals harguments =>
      simp only [List.append_assoc]
      exact .call hentry hselects hoptionals harguments _

theorem WordTyped.frame {bound position : Nat} {shape : Nat → Shape} {w : Word}
    (h : WordTyped c bound shape position w) (rest : Shape) :
    WordTyped c bound (fun q => shape q ++ rest) position w := by
  obtain ⟨instruction, hdecode, h⟩ := h
  refine ⟨instruction, hdecode, ?_⟩
  cases hcontrol : Control.ofInstruction instruction with
  | plain =>
      simp only [hcontrol] at h ⊢
      exact ⟨h.1, h.2.frame rest⟩
  | jump offset =>
      simp only [hcontrol] at h ⊢
      obtain ⟨target, htarget, hoffset, hsame⟩ := h
      exact ⟨target, htarget, hoffset, by rw [hsame]⟩
  | skip onZero =>
      simp only [hcontrol] at h ⊢
      obtain ⟨hle, ⟨value, hvalue, hfront⟩, hsame⟩ := h
      exact ⟨hle, ⟨value, hvalue, by rw [hfront, List.cons_append]⟩, by rw [hsame]⟩
  | stop => trivial

/-- Code can be run on a deeper stack. -/
theorem Typed.frame {code : Code} {before after : Shape} (h : Typed c code before after)
    (rest : Shape) : Typed c code (before ++ rest) (after ++ rest) := by
  obtain ⟨shape, rfl, rfl, h⟩ := h
  exact ⟨fun q => shape q ++ rest, rfl, rfl, fun position w hw => (h position w hw).frame rest⟩

/-! ### Blocks -/

/-- The code leaves one number, which decides between two ways. -/
def Decides (c : Surroundings) (condition : Code) : Prop :=
  ∃ value, Slot.IsValue value ∧ Typed c condition [] [value]

/-- The code leaves the stack empty, as long as it is not too long for jumps. -/
def Safe (c : Surroundings) (code : Code) : Prop :=
  code.length < 2 ^ 24 → Typed c code [] []

/-- A condition and its skip, with a jump behind it that leads `distance` words into the rest. -/
theorem Shapes.guard {condition rest : Code} {w : Word} {bound distance : Nat}
    {shape : Nat → Shape} (hcondition : Decides c condition) (hrest : Shapes c bound rest shape)
    (hbound : rest.length ≤ bound) (hw : Control.ofWord? w = some (.jump (distance + 1)))
    (hdistance : distance ≤ bound) (hstart : shape 0 = []) (htarget : shape distance = []) :
    ∃ shape', shape' 0 = [] ∧ (∀ q, shape' (condition.length + 2 + q) = shape q) ∧
      Shapes c (condition.length + 2 + bound)
        (condition ++ Assembly.op .skipOnNonZero :: w :: rest) shape' := by
  obtain ⟨value, hvalue, first, hfirst, hend, hcondition⟩ := hcondition
  have hjump : Shapes c (bound + 1) (w :: rest) (prepend [] shape) :=
    cons (.of_jump (distance + 1) hw (by omega) (by omega) htarget) hrest hbound
  have hskip : Shapes c (bound + 2) (Assembly.op .skipOnNonZero :: w :: rest)
      (prepend [value] (prepend [] shape)) :=
    cons (.of_skip hvalue (by omega) rfl hstart) hjump (by simpa using hbound)
  have hshape : ∀ q, splice condition.length first (prepend [value] (prepend [] shape))
      (condition.length + q) = prepend [value] (prepend [] shape) q := splice_add hend
  refine ⟨splice condition.length first (prepend [value] (prepend [] shape)), ?_, fun q => ?_, ?_⟩
  · rw [splice_of_le (Nat.zero_le _), hfirst]
  · rw [Nat.add_assoc, hshape, Nat.add_comm 2 q]
    rfl
  · have h := hcondition.append hskip (by simpa using hbound) hend
    rwa [Nat.add_comm bound 2, ← Nat.add_assoc] at h

/-- The body of an arm and the arms behind it: the shape is empty at the start, between the two,
and at the end. -/
theorem Shapes.arm {body leave tail : Code} (hbody : Typed c body [] [])
    (htail : Typed c tail [] []) (hleave : ControlFlow.Leaves tail leave)
    (hlt : tail.length + 1 < 2 ^ 24) :
    ∃ shape, shape 0 = [] ∧ shape (body ++ leave).length = [] ∧
      shape (body ++ leave ++ tail).length = [] ∧
      Shapes c (body ++ leave ++ tail).length (body ++ leave ++ tail) shape := by
  obtain ⟨first, hfirst, hend, hbody⟩ := hbody
  obtain ⟨rfl, rfl⟩ | ⟨w, rfl, hw⟩ := hleave
  · simp only [List.append_nil]
    exact ⟨first, hfirst, hend, hend, hbody⟩
  · obtain ⟨second, hsecond, hlast, htail⟩ := htail
    have hjump : Shapes c (tail.length + 1) (w :: tail) (prepend [] second) :=
      cons (.of_jump (tail.length + 1) (hw hlt) (by omega) (Nat.le_refl _) hlast) htail
        (Nat.le_refl _)
    have hshape : ∀ q, splice body.length first (prepend [] second) (body.length + q) =
      prepend [] second q := splice_add hend
    refine ⟨splice body.length first (prepend [] second), ?_, ?_, ?_, ?_⟩
    · rw [splice_of_le (Nat.zero_le _), hfirst]
    · rw [List.length_append, hshape]
      exact hsecond
    · rw [List.append_assoc, List.length_append, hshape, List.singleton_append, List.length_cons]
      exact hlast
    · rw [List.append_assoc, List.length_append]
      exact hbody.append hjump (Nat.le_refl _) hend

namespace Typed

theorem conditional_cons {condition : Option Code} {guard body leave tail : Code}
    (hguard : ControlFlow.Guards condition (body ++ leave).length guard)
    (hleave : ControlFlow.Leaves tail leave)
    (hcondition : ∀ test, condition = some test → Decides c test) (hbody : Typed c body [] [])
    (htail : Typed c tail [] []) (hlt : (guard ++ (body ++ leave) ++ tail).length < 2 ^ 24) :
    Typed c (guard ++ (body ++ leave) ++ tail) [] [] := by
  have hparts : guard.length + (body ++ leave).length + tail.length < 2 ^ 24 := by
    simpa only [List.length_append] using hlt
  have htailLt : leave = [] ∧ tail = [] ∨ tail.length + 1 < 2 ^ 24 := by
    obtain h | ⟨w, rfl, -⟩ := hleave
    · exact Or.inl h
    · rw [List.length_append] at hparts
      exact Or.inr (by simp only [List.length_singleton] at hparts; omega)
  have harm : ∃ shape, shape 0 = [] ∧ shape (body ++ leave).length = [] ∧
      shape (body ++ leave ++ tail).length = [] ∧
      Shapes c (body ++ leave ++ tail).length (body ++ leave ++ tail) shape := by
    refine Shapes.arm hbody htail hleave ?_
    obtain ⟨-, rfl⟩ | h := htailLt
    · decide
    · exact h
  obtain ⟨shape, hstart, hbetween, hend, hshapes⟩ := harm
  -- An arm without a condition is this much; otherwise its guard comes in front.
  cases condition with
  | none =>
      obtain rfl : guard = [] := hguard
      exact ⟨shape, hstart, hend, hshapes⟩
  | some test =>
      obtain ⟨w, rfl, hw⟩ := hguard
      have hjump : Control.ofWord? w = some (.jump ((body ++ leave).length + 1)) := by
        refine hw ?_
        simp only [List.length_append, List.length_cons, List.length_nil] at hparts ⊢
        omega
      have hlength : (test ++ [Assembly.op .skipOnNonZero, w] ++ (body ++ leave) ++ tail).length =
          test.length + 2 + (body ++ leave ++ tail).length := by
        simp only [List.length_append, List.length_cons, List.length_nil]
        omega
      obtain ⟨shape', hstart', hshape', hshapes'⟩ := Shapes.guard (hcondition test rfl) hshapes
        (Nat.le_refl _) hjump (by simp) hstart hbetween
      refine ⟨shape', hstart', ?_, ?_⟩
      · rw [hlength, hshape', hend]
      · rw [hlength]
        simpa only [List.append_assoc, List.cons_append, List.nil_append] using hshapes'

/-- A conditional whose conditions decide and whose bodies are safe is safe. -/
theorem conditional {arms : List Arm} {code : Code}
    (hconditions : ∀ arm ∈ arms, ∀ test, arm.condition = some test → Decides c test)
    (hbodies : ∀ arm ∈ arms, Safe c arm.body) (hcode : ControlFlow.conditional arms = .ok code)
    (hlt : code.length < 2 ^ 24) : Typed c code [] [] := by
  induction arms generalizing code with
  | nil =>
      cases hcode
      exact .nil []
  | cons arm arms ih =>
      obtain ⟨tail, htail⟩ := ControlFlow.exists_conditional_eq arms
      obtain ⟨guard, leave, heq, hguard, hleave⟩ := ControlFlow.conditional_cons_eq arm htail
      cases heq.symm.trans hcode
      have hparts := hlt
      simp only [List.length_append] at hparts
      refine conditional_cons hguard hleave (hconditions arm (by simp))
        (hbodies arm (by simp) (by omega)) ?_ hlt
      exact ih (fun other h => hconditions other (by simp [h]))
        (fun other h => hbodies other (by simp [h])) htail (by omega)

/-- A loop whose condition decides and whose body is safe is safe. -/
theorem loop {condition body code : Code} (hcondition : Decides c condition) (hbody : Safe c body)
    (hcode : ControlFlow.loop condition body = .ok code) (hlt : code.length < 2 ^ 24) :
    Typed c code [] [] := by
  have hne : condition ≠ [] := by
    rintro rfl
    obtain ⟨value, -, shape, hstart, hend, -⟩ := hcondition
    exact absurd (hstart.symm.trans hend) (by simp)
  obtain ⟨guard, back, heq, hjumps⟩ := ControlFlow.loop_eq hne body
  cases heq.symm.trans hcode
  simp only [List.length_append, List.length_cons, List.length_nil] at hlt
  obtain ⟨hguard, hback⟩ := hjumps (by omega)
  obtain ⟨first, hfirst, hend, hshapes⟩ := hbody (by omega)
  -- The body is given one more position, behind the jump back, for the guard to lead to.
  have hwide : Shapes c (body.length + 1) body (splice body.length first fun _ => []) :=
    hshapes.extend hend (by omega)
  have hover : splice body.length first (fun _ => []) (body.length + 1) = [] := splice_add hend 1
  obtain ⟨shape, hstart, hshape, hfront⟩ := Shapes.guard hcondition hwide (by omega) hguard
    (Nat.le_refl _) ((splice_of_le (Nat.zero_le _)).trans hfirst) hover
  have hsize : (condition ++ [Assembly.op .skipOnNonZero, guard] ++ body).length =
      condition.length + 2 + body.length := by
    simp only [List.length_append, List.length_cons, List.length_nil]
  have hlength : (condition ++ [Assembly.op .skipOnNonZero, guard] ++ body ++ [back]).length =
      condition.length + 2 + (body.length + 1) := by
    rw [List.length_append, hsize, List.length_singleton, Nat.add_assoc]
  refine ⟨shape, hstart, by rw [hlength, hshape, hover], ?_⟩
  rw [hlength]
  intro position w hw
  by_cases hposition : position < condition.length + 2 + body.length
  · refine hfront position w ?_
    rw [List.getElem?_append_left (by omega)] at hw
    simpa using hw
  · have hlast := (List.getElem?_eq_some_iff.1 hw).1
    obtain rfl : position = condition.length + 2 + body.length := by omega
    rw [← hsize, List.getElem?_concat_length] at hw
    cases hw
    refine .of_jump 0 hback (by omega) (Nat.zero_le _) ?_
    rw [hstart, hshape, splice_of_le (Nat.le_refl _), hend]

end Typed

end QuestScript
