import QuestScript.Text.Digits

/-!
# Message formats

The text of a message box may hold specifications that stand for values: a percent sign, an
optional zero or blank for padding, a width, a point with a precision, and a letter. Two percent
signs stand for one, and a specification with an unknown letter stands for nothing.
-/

namespace QuestScript.MessageFormat

/-- What kind of value a specification takes. -/
inductive Placeholder where
  | string
  | integer
  | float
  deriving DecidableEq, Inhabited

/-- A specification that takes a value. -/
structure Spec where
  placeholder : Placeholder
  pad : Char
  width : Option Nat
  precision : Option Nat
  deriving DecidableEq, Inhabited

/-- The kind of value that a letter stands for. -/
def placeholderOf? (letter : Char) : Option Placeholder :=
  if letter ∈ ['s', 'S'] then some .string
  else if letter ∈ ['d', 'i'] then some .integer
  else if letter ∈ ['f', 'F', 'e', 'E', 'g', 'G', 'a', 'A'] then some .float
  else none

/-- Splits off the padding sign; a blank is the default. -/
def splitPad : List Char → Char × List Char
  | '0' :: rest => ('0', rest)
  | ' ' :: rest => (' ', rest)
  | rest => (' ', rest)

/-- Splits off the width, if there are digits. -/
def splitWidth (cs : List Char) : Option Nat × List Char :=
  match cs.takeWhile Char.isDigit with
  | [] => (none, cs)
  | digits => (some (Text.valueOfDigits digits), cs.dropWhile Char.isDigit)

/-- Splits off the precision, if there is a point. -/
def splitPrecision : List Char → Option Nat × List Char
  | '.' :: rest =>
    (some (Text.valueOfDigits (rest.takeWhile Char.isDigit)), rest.dropWhile Char.isDigit)
  | rest => (none, rest)

/-- Reads a specification behind its percent sign. The result is the specification, if its letter
is known, and the text behind it; there is no result if the text ends before the letter. -/
def readSpec? (cs : List Char) : Option (Option Spec × List Char) :=
  let (pad, cs) := splitPad cs
  let (width, cs) := splitWidth cs
  let (precision, cs) := splitPrecision cs
  match cs with
  | [] => none
  | letter :: rest =>
    some ((placeholderOf? letter).map fun kind => ⟨kind, pad, width, precision⟩, rest)

theorem length_split_pad_le (cs : List Char) : (splitPad cs).2.length ≤ cs.length := by
  unfold splitPad
  split <;> simp

theorem length_split_width_le (cs : List Char) : (splitWidth cs).2.length ≤ cs.length := by
  unfold splitWidth
  split
  · exact Nat.le_refl _
  · exact (List.dropWhile_sublist _).length_le

theorem length_split_precision_le (cs : List Char) :
    (splitPrecision cs).2.length ≤ cs.length := by
  unfold splitPrecision
  split
  · exact Nat.le_succ_of_le (List.dropWhile_sublist _).length_le
  · exact Nat.le_refl _

/-- A specification is never empty, so less text is left behind it. -/
theorem length_lt_of_read_spec? {cs rest : List Char} {spec : Option Spec}
    (h : readSpec? cs = some (spec, rest)) : rest.length < cs.length := by
  have hpad := length_split_pad_le cs
  have hwidth := length_split_width_le (splitPad cs).2
  have hprecision := length_split_precision_le (splitWidth (splitPad cs).2).2
  simp only [readSpec?] at h
  split at h
  · exact absurd h (by simp)
  · rename_i letter tail heq
    simp only [Option.some.injEq, Prod.mk.injEq] at h
    obtain ⟨-, rfl⟩ := h
    rw [heq] at hprecision
    simp only [List.length_cons] at hprecision
    omega

/-- The specifications of a format, in order. -/
def placeholdersOf (cs : List Char) : List Spec :=
  match cs with
  | [] => []
  | '%' :: '%' :: rest => placeholdersOf rest
  | '%' :: rest =>
    match h : readSpec? rest with
    | none => []
    | some (spec, rest') =>
      have := length_lt_of_read_spec? h
      spec.toList ++ placeholdersOf rest'
  | _ :: rest => placeholdersOf rest
termination_by cs.length

/-- The specifications of a format, in order. -/
def placeholders (format : String) : List Spec :=
  placeholdersOf format.toList

/-- The letter of a kind of value in an argument signature. -/
def Placeholder.letter : Placeholder → Char
  | .string => 'S'
  | .integer => 'l'
  | .float => 'f'

/-- The argument signature that a format asks for. -/
def signature (format : String) : String :=
  String.ofList ((placeholders format).map (·.placeholder.letter))

end QuestScript.MessageFormat
