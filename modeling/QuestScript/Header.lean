import QuestScript.Instruction

/-!
# The header

A C header with the numbers of the built-in operations, for the machine that runs programs.
-/

namespace QuestScript.Header

/-- The line of a built-in operation. -/
def opcodeLine (opcode : Opcode) : String :=
  "    MWSCRIPT_" ++ opcode.name ++ " = " ++ toString opcode.code.toNat ++ ",\n"

/-- The text of the header. -/
def text : String :=
  "#pragma once\n" ++
    "#include <stdint.h>\n" ++
    "// Auto-generated – DO NOT EDIT\n\n" ++
    "#define MWSCRIPT_OP_PUSH          " ++ toString Instruction.pushOp.toNat ++ "\n" ++
    "#define MWSCRIPT_OP_JUMP_FORWARD  " ++ toString Instruction.jumpForwardOp.toNat ++ "\n" ++
    "#define MWSCRIPT_OP_JUMP_BACKWARD " ++ toString Instruction.jumpBackwardOp.toNat ++ "\n" ++
    "#define MWSCRIPT_OP_MESSAGE_BOX   " ++ toString Instruction.messageBoxOp.toNat ++ "\n\n" ++
    "enum MwScriptOpcode \x7b\n" ++
    String.join (Opcode.all.map opcodeLine) ++
    "\x7d;\n"

end QuestScript.Header
