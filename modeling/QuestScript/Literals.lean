import QuestScript.Binary32.Basic
import QuestScript.Instruction
import QuestScript.Text.Utf8

/-!
# Literal pools

Numbers and texts of a script are kept beside its code, in three pools that instructions refer to
by index. A pool only grows, and equal literals are kept apart.
-/

namespace QuestScript

/-- The literals of one script. -/
structure Literals where
  integers : List Int32 := []
  floats : List Binary32 := []
  strings : List String := []
  deriving DecidableEq, Inhabited

namespace Literals

/-- Adds an integer and gives its index. -/
def addInteger (pool : Literals) (value : Int32) : Nat × Literals :=
  (pool.integers.length, { pool with integers := pool.integers ++ [value] })

/-- Adds a float and gives its index. -/
def addFloat (pool : Literals) (value : Binary32) : Nat × Literals :=
  (pool.floats.length, { pool with floats := pool.floats ++ [value] })

/-- Adds a text and gives its index. -/
def addString (pool : Literals) (value : String) : Nat × Literals :=
  (pool.strings.length, { pool with strings := pool.strings ++ [value] })

/-- The literals are among those of a larger pool, with the same indices. -/
structure Within (pool larger : Literals) : Prop where
  integers : pool.integers <+: larger.integers
  floats : pool.floats <+: larger.floats
  strings : pool.strings <+: larger.strings

namespace Within

variable {pool middle larger : Literals}

@[simp] theorem refl (pool : Literals) : pool.Within pool :=
  ⟨List.prefix_refl _, List.prefix_refl _, List.prefix_refl _⟩

theorem trans (h : pool.Within middle) (h' : middle.Within larger) : pool.Within larger :=
  ⟨h.integers.trans h'.integers, h.floats.trans h'.floats, h.strings.trans h'.strings⟩

end Within

@[simp] theorem within_add_integer (pool : Literals) (value : Int32) :
    pool.Within (pool.addInteger value).2 :=
  ⟨List.prefix_append _ _, List.prefix_refl _, List.prefix_refl _⟩

@[simp] theorem within_add_float (pool : Literals) (value : Binary32) :
    pool.Within (pool.addFloat value).2 :=
  ⟨List.prefix_refl _, List.prefix_append _ _, List.prefix_refl _⟩

@[simp] theorem within_add_string (pool : Literals) (value : String) :
    pool.Within (pool.addString value).2 :=
  ⟨List.prefix_refl _, List.prefix_refl _, List.prefix_append _ _⟩

/-- The size of the integer block in bytes. -/
def integerSize (pool : Literals) : Nat :=
  pool.integers.length * 4

/-- The size of the float block in bytes. -/
def floatSize (pool : Literals) : Nat :=
  pool.floats.length * 4

/-- The texts one after the other, each ended by a zero byte. -/
def stringBytes (pool : Literals) : List UInt8 :=
  pool.strings.flatMap fun s => Text.encodeUtf8 s ++ [0]

/-- The number of zero bytes that fill a block of `size` bytes up to whole words. -/
def padding (size : Nat) : Nat :=
  (4 - size % 4) % 4

/-- The size of the text block in bytes, filled up to whole words. -/
def stringSize (pool : Literals) : Nat :=
  pool.stringBytes.length + padding pool.stringBytes.length

/-- The word made of four bytes, the lowest first. -/
def wordOfBytes (a b c d : UInt8) : Word :=
  a.toUInt32 ||| (b.toUInt32 <<< 8) ||| (c.toUInt32 <<< 16) ||| (d.toUInt32 <<< 24)

/-- The words of a byte sequence of whole words, the lowest byte of each first. -/
def wordsOfBytes : List UInt8 → Code
  | a :: b :: c :: d :: rest => wordOfBytes a b c d :: wordsOfBytes rest
  | _ => []

/-- The three blocks as words: integers, floats, texts. -/
def words (pool : Literals) : Code :=
  pool.integers.map (·.toUInt32) ++ pool.floats.map (·.bits) ++
    wordsOfBytes (pool.stringBytes ++ List.replicate (padding pool.stringBytes.length) 0)

end Literals

end QuestScript
