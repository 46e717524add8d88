import QuestScript.Text.Blank
import QuestScript.Text.Numeric
import QuestScript.Token

/-!
# Lexemes

The text of a script falls into lexemes. Which characters belong to the next lexeme, and what it
forms, depends on its first character and on the modes in force. This module only divides the
text; it neither reports problems nor looks up keywords.
-/

namespace QuestScript

/-- How the scanner reads at the moment. -/
structure Modes where
  /-- A quoted text is a name even if it spells a keyword. -/
  strictKeywords : Bool := false
  /-- Points and hyphens may stand inside a name. -/
  tolerantNames : Bool := false
  /-- The next lexeme is a name even if it starts with a digit, a point or a hyphen. -/
  expectName : Bool := false
  /-- Quoted texts may run over the end of a line. -/
  ignoreNewline : Bool := false
  /-- Special characters are strays, because the line has not begun yet. -/
  ignoreSpecial : Bool := true
  deriving DecidableEq, Inhabited

/-- The modes behind the end of a line. -/
def Modes.newLine (modes : Modes) : Modes :=
  { modes with
    strictKeywords := false, tolerantNames := false, expectName := false, ignoreSpecial := true }

/-- What a lexeme is. -/
inductive Lexeme where
  /-- A separator. -/
  | blank
  /-- A comment up to the end of its line. -/
  | comment
  /-- A name or keyword without quotes. -/
  | word
  /-- A name that starts with a point or a hyphen. -/
  | signedWord
  /-- A quoted text without its quotes; the closing quote may be missing at the end of all. -/
  | quoted (body : List Char) (closed : Bool)
  /-- A quote at the end of a line with nothing but blanks or a comment behind it. -/
  | strayQuote
  /-- A quoted text that is not closed on its line. -/
  | openQuote
  /-- A number without a point. -/
  | integer
  /-- A number with a point: the digits before and behind it. -/
  | decimal (whole fraction : List Char)
  /-- A number with a point and letters behind it, or without any digit. -/
  | brokenDecimal
  /-- Special characters before the beginning of a line. -/
  | strays
  /-- A special sign other than a comparison. -/
  | sign (special : Special)
  /-- A comparison, and whether it is spelled properly. -/
  | comparison (kind : Comparison) (proper : Bool)
  /-- A character or a comparison without meaning. -/
  | unknown
  deriving DecidableEq, Inhabited

/-- What the first character of a lexeme says about it. -/
inductive Start where
  | comment
  | blank
  | word
  | digit
  | special
  deriving DecidableEq, Inhabited

/-- The kind of lexeme that a character starts. -/
def Start.of (c : Char) : Start :=
  if c = ';' then .comment
  else if c = ' ' ∨ c = '\t' ∨ c = ':' ∨ c = '\r' then .blank
  else if Text.isAlphabetic c ∨ c = '_' ∨ c = '"' then .word
  else if c.isDigit then .digit
  else .special

/-- The modes after the first character of a lexeme: a word or a number begins the line, and the
next lexeme is no longer expected to be a name. -/
def Modes.start (modes : Modes) : Start → Modes
  | .word | .digit => { modes with ignoreSpecial := false, expectName := false }
  | .special => { modes with expectName := false }
  | .comment | .blank => modes

namespace Lexeme

/-- The character may stand in a name by itself. Besides letters, digits and the underscore these
are the grave accent and the apostrophe. -/
def isNameChar (c : Char) : Bool :=
  Text.isAlphabetic c || c.isDigit || c == '_' || c == '\x60' || c == '\x27'

/-- The character continues a name in front of `rest`. A hyphen does so in front of a name
character. -/
def continuesName (tolerant : Bool) (c : Char) (rest : List Char) : Bool :=
  isNameChar c || (c == '-' && rest.head?.any isNameChar) || (tolerant && (c == '.' || c == '-'))

/-- The characters that continue a name. -/
def nameRun (tolerant : Bool) : List Char → List Char
  | [] => []
  | c :: rest => if continuesName tolerant c rest then c :: nameRun tolerant rest else []

/-- The text is blank up to a comment. -/
def isBlankLine (body : List Char) : Bool :=
  (body.takeWhile (· != ';')).all fun c => c == ' ' || c == '\t' || c == '\r'

/-- A quoted text behind its opening quote, and what belongs to it. -/
def readQuoted (ignoreNewline : Bool) (rest : List Char) : Lexeme × List Char :=
  let inside := fun c => c != '"' && (ignoreNewline || c != '\n')
  let body := rest.takeWhile inside
  match rest.dropWhile inside with
  | '"' :: _ => (.quoted body true, body ++ ['"'])
  | '\n' :: _ => (if isBlankLine body then .strayQuote else .openQuote, body)
  | _ => (.quoted body false, body)

/-- A number behind its point, and what belongs to it. -/
def readFraction (whole rest : List Char) : Lexeme × List Char :=
  let run := rest.takeWhile fun c => c.isDigit || Text.isAlphabetic c || c == '_'
  let fraction := run.filter Char.isDigit
  if whole.isEmpty && fraction.isEmpty || !run.all Char.isDigit then (.brokenDecimal, run)
  else (.decimal whole fraction, run)

/-- A number or a name behind its first digit, and what belongs to it. -/
def readNumber (tolerant : Bool) (first : Char) (rest : List Char) : Lexeme × List Char :=
  let digits := rest.takeWhile Char.isDigit
  let behind := rest.dropWhile Char.isDigit
  if behind.head?.any isNameChar then (.word, digits ++ nameRun tolerant behind)
  else
    match behind with
    | '.' :: more =>
      let (lexeme, run) := readFraction (first :: digits) more
      (lexeme, digits ++ '.' :: run)
    | _ => (.integer, digits)

/-- The comparison with a spelling without blanks, and whether the spelling is proper. Others are
read by their first characters; an exclamation mark needs an equals sign. -/
def comparisonOf? (spelling : List Char) : Option (Comparison × Bool) :=
  match spelling with
  | ['=', '='] => some (.equal, true)
  | ['!', '='] => some (.notEqual, true)
  | ['<'] => some (.less, true)
  | ['<', '='] | ['<', '=', '='] => some (.lessOrEqual, true)
  | ['>'] => some (.greater, true)
  | ['>', '='] | ['>', '=', '='] => some (.greaterOrEqual, true)
  | '=' :: _ => some (.equal, false)
  | '<' :: '=' :: _ => some (.lessOrEqual, false)
  | '<' :: _ => some (.less, false)
  | '>' :: '=' :: _ => some (.greaterOrEqual, false)
  | '>' :: _ => some (.greater, false)
  | '!' :: '=' :: _ => some (.notEqual, false)
  | _ => none

/-- The character is a blank that may stand inside a comparison. -/
def isInnerBlank (c : Char) : Bool :=
  c == ' ' || c == '\t'

/-- A comparison behind its first character, and what belongs to it. -/
def readComparison (first : Char) (rest : List Char) : Lexeme × List Char :=
  let run := rest.takeWhile fun c =>
    c == '=' || c == '!' || c == '<' || c == '>' || isInnerBlank c
  match comparisonOf? ((first :: run).filter (!isInnerBlank ·)) with
  | some (kind, proper) => (.comparison kind proper, run)
  | none => (.unknown, run)

/-- The character ends a run of stray special characters. -/
def endsStrays (c : Char) : Bool :=
  Text.isBlank c || Text.isAlphanumeric c || c == '_' || c == '"' || c == ';' || c == ':'

/-- A lexeme that starts with a special character, and what belongs to it. -/
def readSpecial (modes : Modes) (c : Char) (rest : List Char) : Lexeme × List Char :=
  if c = '\n' then (.sign .newline, [])
  else if modes.ignoreSpecial then (.strays, rest.takeWhile (!endsStrays ·))
  else if c = '(' ∨ c = '[' then (.sign .opening, [])
  else if c = ')' ∨ c = ']' then (.sign .closing, [])
  else if c = '.' then
    if rest.head?.any Char.isDigit then readFraction [] rest
    else if modes.expectName then (.signedWord, nameRun true rest)
    else (.sign .member, [])
  else if c = ',' then (.sign .comma, [])
  else if c = '-' then
    if rest.head? = some '>' then (.sign .reference, ['>'])
    else if modes.expectName then (.signedWord, nameRun true rest)
    else (.sign .minus, [])
  else if c = '=' ∨ c = '!' ∨ c = '<' ∨ c = '>' then readComparison c rest
  else if c = '+' then (.sign .plus, [])
  else if c = '*' then (.sign .times, [])
  else if c = '/' then (.sign .divided, [])
  else (.unknown, [])

/-- The lexeme that the character `c` starts, and the characters of `rest` that belong to it. -/
def read (modes : Modes) (c : Char) (rest : List Char) : Lexeme × List Char :=
  match Start.of c with
  | .comment => (.comment, rest.takeWhile (· != '\n'))
  | .blank => (.blank, [])
  | .word =>
    if c = '"' then readQuoted modes.ignoreNewline rest
    else (.word, nameRun modes.tolerantNames rest)
  | .digit =>
    if modes.expectName then (.word, nameRun modes.tolerantNames rest)
    else readNumber modes.tolerantNames c rest
  | .special => readSpecial modes c rest

end Lexeme

end QuestScript
