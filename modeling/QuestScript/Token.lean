import QuestScript.Binary32.Basic

/-!
# Tokens

The units that scripts are read in: numbers, names, keywords, special signs, comments and the
end of the text. Every token comes with the place where it stands and with its spelling.
-/

namespace QuestScript

/-- A place in the text: the line and the column behind a token, both counted from zero, and the
spelling of the token. -/
structure Location where
  line : Nat := 0
  column : Nat := 0
  literal : String := ""
  deriving DecidableEq, Inhabited

/-- The place as it stands in a diagnostic, counted from one. -/
def Location.text (loc : Location) : String :=
  s!"line {loc.line + 1}, column {loc.column + 1} ({loc.literal})"

/-- A word of the language itself, in the order of the keyword numbers. -/
inductive Builtin where
  | beginScript
  | endScript
  | short
  | long
  | float
  | ifBlock
  | elseIf
  | elseBlock
  | endIf
  | whileBlock
  | endWhile
  | leave
  | messageBox
  | setVariable
  | toValue
  | getSquareRoot
  | menuMode
  | random
  | startScript
  | stopScript
  | scriptRunning
  | getDistance
  | getSecondsPassed
  | enable
  | disable
  | getDisabled
  deriving DecidableEq, Inhabited

namespace Builtin

/-- Every word of the language, in the order of the keyword numbers. -/
def all : List Builtin := [
  .beginScript, .endScript, .short, .long, .float, .ifBlock, .elseIf, .elseBlock, .endIf,
  .whileBlock, .endWhile, .leave, .messageBox, .setVariable, .toValue, .getSquareRoot, .menuMode,
  .random, .startScript, .stopScript, .scriptRunning, .getDistance, .getSecondsPassed, .enable,
  .disable, .getDisabled]

/-- The spelling of a word, in lower case. -/
def spelling : Builtin → String
  | .beginScript => "begin"
  | .endScript => "end"
  | .short => "short"
  | .long => "long"
  | .float => "float"
  | .ifBlock => "if"
  | .elseIf => "elseif"
  | .elseBlock => "else"
  | .endIf => "endif"
  | .whileBlock => "while"
  | .endWhile => "endwhile"
  | .leave => "return"
  | .messageBox => "messagebox"
  | .setVariable => "set"
  | .toValue => "to"
  | .getSquareRoot => "getsquareroot"
  | .menuMode => "menumode"
  | .random => "random"
  | .startScript => "startscript"
  | .stopScript => "stopscript"
  | .scriptRunning => "scriptrunning"
  | .getDistance => "getdistance"
  | .getSecondsPassed => "getsecondspassed"
  | .enable => "enable"
  | .disable => "disable"
  | .getDisabled => "getdisabled"

/-- The word with the given spelling, which has to be in lower case. -/
def ofSpelling? (word : String) : Option Builtin :=
  all.find? (·.spelling == word)

/-- The word structures statements, so that it may also serve as a plain name. -/
def isStatement : Builtin → Bool
  | .beginScript | .endScript | .short | .long | .float | .ifBlock | .elseIf | .elseBlock | .endIf
  | .whileBlock | .endWhile | .leave | .messageBox | .setVariable | .toValue => true
  | _ => false

end Builtin

/-- A keyword: a word of the language, or a word of the host with its negative number. -/
inductive Keyword where
  | builtin (word : Builtin)
  | extension (code : Int)
  deriving DecidableEq, Inhabited

namespace Keyword

/-- The number of a keyword. -/
def code : Keyword → Int
  | .builtin word => word.ctorIdx
  | .extension code => code

/-- The keyword may also serve as a plain name. -/
def isStatement : Keyword → Bool
  | .builtin word => word.isStatement
  | .extension _ => false

end Keyword

/-- A comparison of two numbers. -/
inductive Comparison where
  | equal
  | notEqual
  | less
  | lessOrEqual
  | greater
  | greaterOrEqual
  deriving DecidableEq, Inhabited

/-- The plain spelling of a comparison. -/
def Comparison.spelling : Comparison → String
  | .equal => "=="
  | .notEqual => "!="
  | .less => "<"
  | .lessOrEqual => "<="
  | .greater => ">"
  | .greaterOrEqual => ">="

/-- A special sign. -/
inductive Special where
  | newline
  | opening
  | closing
  | comparison (kind : Comparison)
  | plus
  | minus
  | times
  | divided
  | comma
  | reference
  | member
  deriving DecidableEq, Inhabited

/-- A unit of the text. -/
inductive Token where
  | int (value : Int32)
  | float (value : Binary32)
  | name (text : String)
  | keyword (word : Keyword)
  | special (sign : Special)
  | comment (text : String)
  | endOfText
  deriving DecidableEq, Inhabited

/-- The token is a keyword. -/
def Token.isKeyword : Token → Bool
  | .keyword _ => true
  | _ => false

/-- The text without one pair of surrounding double quotes, if it has one. -/
def unquote (literal : String) : String :=
  match literal.toList with
  | '"' :: rest =>
    if rest.getLast? = some '"' then String.ofList rest.dropLast else literal
  | _ => literal

end QuestScript
