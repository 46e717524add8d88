import QuestScript.Binary32.Basic
import QuestScript.Text.Digits

/-!
# Numbers at the start of words

A word that stands for a number has the value of its longest start that reads as a decimal
number, and zero if there is none.
-/

namespace QuestScript

/-- The start of a text that reads as a number. -/
structure LeadingNumber where
  /-- The sign, if there is one. -/
  sign : List Char
  /-- The digits in front of the point. -/
  whole : List Char
  /-- The point, if there is one, and the digits behind it. -/
  fraction : List Char
  /-- The letter, sign and digits of the exponent, if there is one. -/
  exponent : List Char
  deriving DecidableEq, Inhabited

namespace LeadingNumber

/-- Splits off a sign. -/
def splitSign : List Char → List Char × List Char
  | '+' :: rest => (['+'], rest)
  | '-' :: rest => (['-'], rest)
  | rest => ([], rest)

/-- A point with the digits behind it, at the start of a text. -/
def fractionOf : List Char → List Char
  | '.' :: rest => '.' :: rest.takeWhile Char.isDigit
  | _ => []

/-- An exponent at the start of a text. It needs a digit. -/
def exponentOf : List Char → List Char
  | c :: rest =>
    let (sign, behind) := splitSign rest
    let digits := behind.takeWhile Char.isDigit
    if (c = 'e' ∨ c = 'E') ∧ digits ≠ [] then c :: sign ++ digits else []
  | [] => []

/-- The longest start of a text that reads as a number. It needs a digit in front of the
exponent. -/
def ofText? (text : List Char) : Option LeadingNumber :=
  let (sign, rest) := splitSign text
  let whole := rest.takeWhile Char.isDigit
  let behind := rest.dropWhile Char.isDigit
  let fraction := fractionOf behind
  if whole.isEmpty && fraction.tail.isEmpty then none
  else some ⟨sign, whole, fraction, exponentOf (behind.drop fraction.length)⟩

/-- The text of the number. -/
def text (number : LeadingNumber) : List Char :=
  number.sign ++ number.whole ++ number.fraction ++ number.exponent

/-- The value of the exponent. -/
def exponentValue (number : LeadingNumber) : Int :=
  let (sign, digits) := splitSign number.exponent.tail
  let value : Int := Text.valueOfDigits digits
  if sign = ['-'] then -value else value

/-- The value of the number. -/
def value (number : LeadingNumber) : Binary32 :=
  let fraction := number.fraction.tail
  Binary32.ofDecimal (number.sign == ['-']) (Text.valueOfDigits (number.whole ++ fraction))
    (number.exponentValue - fraction.length)

end LeadingNumber

/-- The value of the number that a word starts with, or zero. -/
def leadingValue (word : String) : Binary32 :=
  match LeadingNumber.ofText? word.toList with
  | some number => number.value
  | none => ⟨0⟩

end QuestScript
