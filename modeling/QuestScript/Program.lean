import QuestScript.Literals
import QuestScript.Locals

/-!
# Programs

A program is a compiled script. Its image is four sizes, the code and the literals, as words with
the lowest byte first.
-/

namespace QuestScript

/-- A compiled script. -/
structure Program where
  name : String := ""
  literals : Literals := {}
  locals : Locals := {}
  code : Code := []
  deriving DecidableEq, Inhabited

/-- The four bytes of a word, the lowest first. -/
def Word.bytes (w : Word) : List UInt8 :=
  [w.toUInt8, (w >>> 8).toUInt8, (w >>> 16).toUInt8, (w >>> 24).toUInt8]

namespace Program

/-- The sizes in front of the image: code, integers and floats in words, texts in bytes. -/
def sizes (program : Program) : List Nat :=
  [program.code.length, program.literals.integerSize / 4, program.literals.floatSize / 4,
    program.literals.stringSize]

/-- The words of the image. -/
def image (program : Program) : Code :=
  program.sizes.map UInt32.ofNat ++ program.code ++ program.literals.words

/-- The bytes of the image. -/
def bytes (program : Program) : List UInt8 :=
  program.image.flatMap Word.bytes

end Program

end QuestScript
