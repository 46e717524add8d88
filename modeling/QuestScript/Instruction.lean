import QuestScript.Opcode
import QuestScript.Text.Quoted

/-!
# Instruction words

Every instruction is one word of 32 bits. The leading bits select one of six formats, and the
other bits hold an operation number and up to two operands:

* format 0: `00`, 6 bits operation, 24 bits operand
* format 1: `01`, 6 bits operation, two operands of 12 bits
* format 2: `10`, 10 bits operation, 20 bits operand
* format 3: `110000`, 18 bits operation, 8 bits operand
* format 4: `110001`, 10 bits operation, two operands of 8 bits
* format 5: `110010`, 26 bits operation

The remaining words are reserved. Operands are cut to the width of their field.
-/

namespace QuestScript

/-- An instruction word. -/
abbrev Word := UInt32

/-- A sequence of instruction words. -/
abbrev Code := List Word

/-- The fields of an instruction, by format. -/
inductive Instruction where
  | segment0 (opcode arg0 : UInt32)
  | segment1 (opcode arg0 arg1 : UInt32)
  | segment2 (opcode arg0 : UInt32)
  | segment3 (opcode arg0 : UInt32)
  | segment4 (opcode arg0 arg1 : UInt32)
  | segment5 (opcode : UInt32)
  deriving DecidableEq, Inhabited

namespace Instruction

/-- The operation of format 0 that pushes its operand. -/
def pushOp : UInt32 := 0

/-- The operation of format 0 that jumps forward by its operand. -/
def jumpForwardOp : UInt32 := 1

/-- The operation of format 0 that jumps backward by its operand. -/
def jumpBackwardOp : UInt32 := 2

/-- The operation of format 3 that shows a message box with as many buttons as its operand
says. -/
def messageBoxOp : UInt32 := 0

/-- The word of an instruction. -/
def encode : Instruction → Word
  | segment0 op a => (op <<< 24) ||| (a &&& 0x00ffffff)
  | segment1 op a b =>
    (0x40000000 : Word) ||| (op <<< 24) ||| ((a &&& 0xfff) <<< 12) ||| (b &&& 0xfff)
  | segment2 op a => (0x80000000 : Word) ||| (op <<< 20) ||| (a &&& 0x000fffff)
  | segment3 op a => (0xc0000000 : Word) ||| (op <<< 8) ||| (a &&& 0xff)
  | segment4 op a b =>
    (0xc4000000 : Word) ||| (op <<< 16) ||| ((a &&& 0xff) <<< 8) ||| (b &&& 0xff)
  | segment5 op => (0xc8000000 : Word) ||| op

/-- The fields of a word, unless the word is reserved. -/
def decode? (w : Word) : Option Instruction :=
  match (w >>> 30).toNat with
  | 0 => some (segment0 ((w >>> 24) &&& 0x3f) (w &&& 0x00ffffff))
  | 1 => some (segment1 ((w >>> 24) &&& 0x3f) ((w >>> 12) &&& 0xfff) (w &&& 0xfff))
  | 2 => some (segment2 ((w >>> 20) &&& 0x3ff) (w &&& 0x000fffff))
  | _ =>
    match (w >>> 26).toNat with
    | 0x30 => some (segment3 ((w >>> 8) &&& 0x3ffff) (w &&& 0xff))
    | 0x31 => some (segment4 ((w >>> 16) &&& 0x3ff) ((w >>> 8) &&& 0xff) (w &&& 0xff))
    | 0x32 => some (segment5 (w &&& 0x03ffffff))
    | _ => none

/-- The number of the format. -/
def segment : Instruction → Nat
  | segment0 .. => 0
  | segment1 .. => 1
  | segment2 .. => 2
  | segment3 .. => 3
  | segment4 .. => 4
  | segment5 .. => 5

/-- The operation number. -/
def opcode : Instruction → UInt32
  | segment0 op _ | segment1 op _ _ | segment2 op _ | segment3 op _ | segment4 op _ _
  | segment5 op => op

/-- The operands in order. -/
def operands : Instruction → List UInt32
  | segment0 _ a | segment2 _ a | segment3 _ a => [a]
  | segment1 _ a b | segment4 _ a b => [a, b]
  | segment5 _ => []

/-- A number in base sixteen with its mark. -/
def markedHex (n : UInt32) : String :=
  "0x" ++ Text.hex n.toNat

/-- The instruction as it stands in a listing. -/
def text : Instruction → String
  | segment0 op a =>
    if op = pushOp then s!"push {a}"
    else if op = jumpForwardOp then s!"jump +{a}"
    else if op = jumpBackwardOp then s!"jump -{a}"
    else s!"op0:{op} {a}"
  | segment1 op a b => s!"op1:{op} {a} {b}"
  | segment2 op a => s!"op2:{op} {a}"
  | segment3 op a =>
    if op = messageBoxOp then s!"MessageBox buttons={a}"
    else "op3:" ++ markedHex op ++ s!" optional={a}"
  | segment4 op a b => "op4:" ++ markedHex op ++ s!" {a} {b}"
  | segment5 op =>
    match Opcode.ofCode? op with
    | some builtin => builtin.name
    | none => "op5:" ++ markedHex op

end Instruction

end QuestScript
