/-!
# Types of variables

A variable is stored as a short, a long or a float. On the stack there are only longs and floats:
a short behaves like a long once it has been fetched.
-/

namespace QuestScript

/-- The storage type of a variable, or the type of a value on the stack. -/
inductive ValueType where
  | short
  | long
  | float
  deriving DecidableEq, Inhabited

namespace ValueType

/-- The type with the given letter in an argument signature. -/
def ofLetter? (letter : Char) : Option ValueType :=
  if letter = 's' then some short
  else if letter = 'l' then some long
  else if letter = 'f' then some float
  else none

/-- The letter of a type in an argument signature. -/
def letter : ValueType → Char
  | short => 's'
  | long => 'l'
  | float => 'f'

/-- The word for a type in an environment file. -/
def name : ValueType → String
  | short => "short"
  | long => "long"
  | float => "float"

/-- The type with the given word. -/
def ofName? (word : String) : Option ValueType :=
  if word = "short" then some short
  else if word = "long" then some long
  else if word = "float" then some float
  else none

/-- The type is `float`. -/
def isFloat (t : ValueType) : Bool :=
  t == float

/-- The type that a variable of this type has on the stack. -/
def operand (t : ValueType) : ValueType :=
  if t.isFloat then float else long

end ValueType

end QuestScript
