import QuestScript.Binary32.Basic
import QuestScript.Dictionary
import QuestScript.Text.Digits
import QuestScript.Text.Utf8

/-!
# Reading JSON by type

A JSON text is read against the type that is expected, from left to right, and the first fault
decides: a value of the wrong shape is a mismatch even if the text behind it is broken. Members
that nobody asked for are passed over with weaker checks: their numbers have no range and their
strings may hold half of a surrogate pair.

Loops take a budget of one more than the characters left, which is enough because every round
consumes at least one character.
-/

namespace QuestScript.Json

/-- What is wrong with a text: it is no JSON, it ends too early, or it has the wrong shape. -/
inductive Fault where
  | malformed
  | truncated
  | mismatch
  deriving DecidableEq, Inhabited

/-- The wording of a fault. -/
def Fault.message : Fault → String
  | .malformed => "malformed JSON text"
  | .truncated => "JSON text ends too early"
  | .mismatch => "JSON text of the wrong shape"

/-- Reads a value from the front of a text. -/
abbrev Decoder := StateT (List Char) (Except Fault)

/-- One more than the number of characters left. -/
def budget : Decoder Nat := do
  pure ((← get).length + 1)

/-- The character is white space between tokens. -/
def isSpace (c : Char) : Bool :=
  c == ' ' || c == '\n' || c == '\t' || c == '\r'

/-- The next character, which stays. -/
def peek : Decoder (Option Char) := do
  pure (← get).head?

/-- Drops the next character. -/
def eat : Decoder Unit :=
  modify List.tail

/-- The next character behind white space, which stays. -/
def peekToken : Decoder (Option Char) := do
  modify (List.dropWhile isSpace)
  peek

/-- The next character; the text must not end here. -/
def next : Decoder Char := do
  match ← get with
  | c :: rest =>
    set rest
    pure c
  | [] => throw .truncated

/-- The rest of a literal word, such as `null`, whose first letter has been read. -/
def restOfWord (letters : List Char) : Decoder Unit :=
  letters.forM fun expected => do
    if (← next) != expected then throw .malformed

/-! ### Strings -/

/-- The number of four digits in base sixteen. The text is too short for them if fewer than four
bytes are left. -/
def fourDigits : Decoder Nat := do
  let cs ← get
  if (Text.encodeUtf8 (String.ofList (cs.take 4))).length < 4 then throw .truncated
  else
    match (cs.take 4).mapM (Text.digitValue? 16) with
    | some [a, b, c, d] =>
      set (cs.drop 4)
      pure (((a * 16 + b) * 16 + c) * 16 + d)
    | _ => throw .malformed

/-- The character of a simple escape. -/
def simpleEscape? (c : Char) : Option Char :=
  if c = '"' ∨ c = '\\' ∨ c = '/' then some c
  else if c = 'b' then some '\x08'
  else if c = 'f' then some '\x0c'
  else if c = 'n' then some '\n'
  else if c = 'r' then some '\r'
  else if c = 't' then some '\t'
  else none

/-- The character given by its number. A number from the first half of the surrogates needs a
second escape with a number from the other half. -/
def numberedEscape : Decoder Char := do
  let high ← fourDigits
  if 0xdc00 ≤ high ∧ high ≤ 0xdfff then throw .malformed
  else if high < 0xd800 ∨ 0xdbff < high then pure (Char.ofNat high)
  else
    if (← next) != '\\' then throw .malformed
    if (← next) != 'u' then throw .malformed
    let low ← fourDigits
    if low < 0xdc00 ∨ 0xdfff < low then throw .malformed
    pure (Char.ofNat (0x10000 + (high - 0xd800) * 0x400 + (low - 0xdc00)))

/-- The character that follows a backslash stands for. -/
def escape : Decoder Char := do
  let c ← next
  if c = 'u' then numberedEscape
  else
    match simpleEscape? c with
    | some c => pure c
    | none => throw .malformed

/-- The characters of a string up to its closing quote. -/
def stringBody : Nat → Decoder (List Char)
  | 0 => pure []
  | n + 1 => do
    let c ← next
    if c = '"' then pure []
    else if c = '\\' then
      let c ← escape
      pure (c :: (← stringBody n))
    else if c.toNat < 0x20 then throw .malformed
    else pure (c :: (← stringBody n))

/-- A string whose opening quote has been read. -/
def restOfString : Decoder String := do
  pure (String.ofList (← stringBody (← budget)))

/-- Passes over a string whose opening quote has been read. -/
def skipString : Nat → Decoder Unit
  | 0 => pure ()
  | n + 1 => do
    let c ← next
    if c = '"' then pure ()
    else if c = '\\' then
      let c ← next
      if c = 'u' then
        let _ ← fourDigits
        skipString n
      else if (simpleEscape? c).isSome then skipString n
      else throw .malformed
    else if c.toNat < 0x20 then throw .malformed
    else skipString n

/-! ### Numbers -/

/-- Reads as many digits as there are. -/
def digits : Decoder (List Char) := do
  let cs ← get
  set (cs.dropWhile Char.isDigit)
  pure (cs.takeWhile Char.isDigit)

/-- At least one digit; otherwise the text ends or goes on with something else. -/
def someDigits (atEnd : Fault) : Decoder (List Char) := do
  match ← digits with
  | [] => throw (if (← peek).isNone then atEnd else .malformed)
  | found => pure found

/-- The digits before the point: a single zero, or digits that do not start with zero. -/
def wholeDigits (atEnd : Fault) : Decoder (List Char) := do
  match ← someDigits atEnd with
  | '0' :: _ :: _ => throw .malformed
  | found => pure found

/-- The parts of a number without its sign: digits before the point, digits behind it, and the
exponent with its sign, where there is a point or an exponent. -/
structure NumberParts where
  whole : List Char
  fraction : Option (List Char)
  exponent : Option (Bool × List Char)

/-- Reads a number without its sign. -/
def numberParts (atEnd : Fault) : Decoder NumberParts := do
  let whole ← wholeDigits atEnd
  let mut fraction := none
  if (← peek) == some '.' then
    eat
    fraction := some (← someDigits atEnd)
  let mut exponent := none
  if (← peek) == some 'e' || (← peek) == some 'E' then
    eat
    let mut negative := false
    match ← peek with
    | some '+' => eat
    | some '-' =>
      eat
      negative := true
    | _ => pure ()
    exponent := some (negative, ← someDigits atEnd)
  pure ⟨whole, fraction, exponent⟩

/-- Appends decimal digits to a number as long as it stays below `2 ^ 64`. The digits from the
first one that does not fit are left over. -/
def appendDigits (value : Nat) : List Char → Nat × List Char
  | [] => (value, [])
  | d :: ds =>
    let longer := 10 * value + Text.valueOfDigits [d]
    if longer < Nat.pow 2 64 then appendDigits longer ds else (value, d :: ds)

/-- The leading digits that a word of 64 bits holds, and the power of ten to scale them by. The
digits that do not fit count as zeros. -/
def NumberParts.scaled (parts : NumberParts) : Nat × Int :=
  let fraction := parts.fraction.getD []
  let (whole, dropped) := appendDigits 0 parts.whole
  let (digits, leftOver) := appendDigits whole fraction
  let exponent : Int :=
    match parts.exponent with
    | none => 0
    | some (negative, ds) =>
      if negative then -(Text.valueOfDigits ds : Int) else Text.valueOfDigits ds
  (digits, exponent + dropped.length + leftOver.length - fraction.length)

/-- The largest power of ten that a floating point number of 64 bits holds. -/
def largestPower : Nat := 308

/-- The least natural that is rounded beyond the floating point numbers of 64 bits. -/
def beyondRange : Nat := Nat.pow 2 1024 - Nat.pow 2 970

/-- The number is too large for a floating point number of 64 bits. The leading digits and the
power of ten are rounded to 53 bits each, and their product decides. So next to the limit the
answer may differ from that of the exact value. -/
def NumberParts.isTooLarge (parts : NumberParts) : Bool :=
  let (digits, exponent) := parts.scaled
  if digits = 0 ∨ exponent < 0 then false
  else if largestPower < exponent then true
  else beyondRange ≤ roundToBits 53 digits * roundToBits 53 (Nat.pow 10 exponent.toNat)

/-- A number: a natural below `2 ^ 64`, or anything else. -/
def number (positive : Bool) : Decoder (Option Nat) := do
  let parts ← numberParts .truncated
  if parts.isTooLarge then throw .malformed
  let value := Text.valueOfDigits parts.whole
  if positive && parts.fraction.isNone && parts.exponent.isNone && value < Nat.pow 2 64 then
    pure (some value)
  else pure none

/-! ### Values that are not wanted -/

/-- The fault of a value of the wrong shape. A scalar is read to its end first, so a broken one
is malformed or cut short instead. -/
def wrongShape {α : Type} : Decoder α := do
  match ← peek with
  | some 'n' => eat; restOfWord ['u', 'l', 'l']; throw .mismatch
  | some 't' => eat; restOfWord ['r', 'u', 'e']; throw .mismatch
  | some 'f' => eat; restOfWord ['a', 'l', 's', 'e']; throw .mismatch
  | some '-' => eat; let _ ← number false; throw .mismatch
  | some '"' => eat; let _ ← restOfString; throw .mismatch
  | some '[' | some '{' => throw .mismatch
  | some c =>
    if c.isDigit then
      let _ ← number true
      throw .mismatch
    else throw .malformed
  | none => throw .malformed

/-- A bracket that has been opened. -/
inductive Bracket where
  | square
  | curly
  deriving DecidableEq, Inhabited

/-- The closing sign of a bracket. -/
def Bracket.closing : Bracket → Char
  | .square => ']'
  | .curly => '\x7d'

/-- Passes over a key and its colon. -/
def skipKey : Decoder Unit := do
  match ← peekToken with
  | some '"' => eat; skipString (← budget)
  | some _ => throw .malformed
  | none => throw .truncated
  match ← peekToken with
  | some ':' => eat
  | some _ => throw .malformed
  | none => throw .truncated

/-- Passes over a scalar, or opens a bracket. -/
def skipScalar : Decoder (Option Bracket) := do
  match ← peekToken with
  | none => throw .truncated
  | some 'n' => eat; restOfWord ['u', 'l', 'l']; pure none
  | some 't' => eat; restOfWord ['r', 'u', 'e']; pure none
  | some 'f' => eat; restOfWord ['a', 'l', 's', 'e']; pure none
  | some '-' => eat; let _ ← numberParts .malformed; pure none
  | some '"' => eat; skipString (← budget); pure none
  | some '[' => eat; pure (some .square)
  | some '{' => eat; pure (some .curly)
  | some c =>
    if c.isDigit then
      let _ ← numberParts .malformed
      pure none
    else throw .malformed

/-- Behind a value inside `enclosing`, or behind an opening bracket: closes brackets until the
next value is due. The result holds the brackets that are open then; none are left when the
whole value has been passed. -/
def skipClosings (behindValue : Bool) : List Bracket → Decoder (List Bracket)
  | [] => pure []
  | bracket :: outer => do
    match ← peekToken with
    | none => throw .truncated
    | some c =>
      if c = ',' ∧ behindValue then
        eat
        pure (bracket :: outer)
      else if c = bracket.closing then
        eat
        skipClosings true outer
      else if behindValue then throw .malformed
      else pure (bracket :: outer)

/-- Passes over a value inside the `enclosing` brackets and over all that follows until these are
closed. -/
def skipWithin : Nat → List Bracket → Decoder Unit
  | 0, _ => pure ()
  | n + 1, enclosing => do
    let due ←
      match ← skipScalar with
      | some bracket => skipClosings false (bracket :: enclosing)
      | none => skipClosings true enclosing
    match due with
    | [] => pure ()
    | .curly :: _ =>
      skipKey
      skipWithin n due
    | .square :: _ => skipWithin n due

/-- Passes over a value that nobody asked for. -/
def skipValue : Decoder Unit := do
  skipWithin (← budget) []

/-! ### Values that are wanted -/

/-- A string. -/
def string : Decoder String := do
  match ← peekToken with
  | some '"' => eat; restOfString
  | some _ => wrongShape
  | none => throw .truncated

/-- A truth value. -/
def bool : Decoder Bool := do
  match ← peekToken with
  | some 't' => eat; restOfWord ['r', 'u', 'e']; pure true
  | some 'f' => eat; restOfWord ['a', 'l', 's', 'e']; pure false
  | some _ => wrongShape
  | none => throw .truncated

/-- A value that may be `null`. -/
def nullable {α : Type} (item : Decoder α) : Decoder (Option α) := do
  match ← peekToken with
  | some 'n' => eat; restOfWord ['u', 'l', 'l']; pure none
  | _ => pure (some (← item))

/-- The colon behind a key. -/
def colon : Decoder Unit := do
  match ← peekToken with
  | some ':' => eat
  | some _ => throw .malformed
  | none => throw .truncated

/-- Another element follows in a list; the comma in front of it is read. -/
def hasElement (first : Bool) : Decoder Bool := do
  match ← peekToken with
  | none => throw .truncated
  | some ']' => pure false
  | some c =>
    if first then pure true
    else if c = ',' then
      eat
      match ← peekToken with
      | some ']' => throw .malformed
      | some _ => pure true
      | none => throw .truncated
    else throw .malformed

/-- Another key follows in an object; the comma in front of it and its opening quote are read. -/
def hasKey (first : Bool) : Decoder Bool := do
  match ← peekToken with
  | none => throw .truncated
  | some '}' => pure false
  | some c =>
    if c = ',' ∧ !first then
      eat
      match ← peekToken with
      | some '"' => eat; pure true
      | some _ => throw .malformed
      | none => throw .truncated
    else if first ∧ c = '"' then
      eat
      pure true
    else throw .malformed

/-- The elements of a list up to its closing bracket. -/
def elements {α : Type} (item : Decoder α) : Nat → Bool → Decoder (List α)
  | 0, _ => pure []
  | n + 1, first => do
    if ← hasElement first then
      let value ← item
      pure (value :: (← elements item n false))
    else pure []

/-- The members of an object up to its closing bracket, folded into a state. The member function
is called behind the key and reads the colon and the value. -/
def members {σ : Type} (member : σ → String → Decoder σ) : Nat → Bool → σ → Decoder σ
  | 0, _, state => pure state
  | n + 1, first, state => do
    if ← hasKey first then
      let key ← restOfString
      members member n false (← member state key)
    else pure state

/-- A list. -/
def list {α : Type} (item : Decoder α) : Decoder (List α) := do
  match ← peekToken with
  | some '[' =>
    eat
    let values ← elements item (← budget) true
    eat
    pure values
  | some _ => wrongShape
  | none => throw .truncated

/-- An object as a table; the last value of a repeated key counts. -/
def table {α : Type} (item : Decoder α) : Decoder (List (String × α)) := do
  match ← peekToken with
  | some '{' =>
    eat
    let put := fun done key => do
      colon
      pure (putEntry done key (← item))
    let entries ← members put (← budget) true []
    eat
    pure entries
  | some _ => wrongShape
  | none => throw .truncated

/-- The end of a list that stands for a record. -/
def endOfList : Decoder Unit := do
  match ← peekToken with
  | some ']' => eat
  | some _ => throw .malformed
  | none => throw .truncated

/-- A record, written as an object or as the list of its fields in order. -/
def record {α : Type} (asList : Decoder α) (asObject : Decoder α) : Decoder α := do
  match ← peekToken with
  | some '[' =>
    eat
    let value ← asList
    endOfList
    pure value
  | some '{' =>
    eat
    let value ← asObject
    eat
    pure value
  | some _ => wrongShape
  | none => throw .truncated

/-- A field of a record written as a list; `none` when the list is at its end. -/
def field? {α : Type} (first : Bool) (item : Decoder α) : Decoder (Option α) := do
  if ← hasElement first then pure (some (← item)) else pure none

/-- A field of a record that must not be missing. -/
def required {α : Type} : Option α → Decoder α
  | some value => pure value
  | none => throw .mismatch

/-- A member of a record written as an object, which must not come twice. -/
def once {α : Type} (slot : Option α) (item : Decoder α) : Decoder (Option α) := do
  if slot.isSome then throw .mismatch
  colon
  pure (some (← item))

/-- A member of a record that nobody asked for. -/
def unknownMember : Decoder Unit := do
  colon
  skipValue

/-- A key whose opening quote has not been read. Anything but a string is malformed here. -/
def key : Decoder String := do
  match ← peekToken with
  | some '"' => eat; restOfString
  | some _ => throw .malformed
  | none => throw .truncated

/-- One of several words, written as a string or as the only key of an object with the value
`null`. Anything that is neither a string nor an object is malformed here. -/
def oneOf {α : Type} (ofWord? : String → Option α) : Decoder α := do
  match ← peekToken with
  | some '"' => required (ofWord? (← string))
  | some '{' =>
    eat
    let value ← required (ofWord? (← key))
    colon
    match ← peekToken with
    | some 'n' => eat; restOfWord ['u', 'l', 'l']
    | some _ => wrongShape
    | none => throw .truncated
    match ← peekToken with
    | some '}' => eat; pure value
    | some _ => throw .malformed
    | none => throw .truncated
  | some _ => throw .malformed
  | none => throw .truncated

/-- A value of any shape, as far as it can stand for an operation number. -/
inductive Scalar where
  | natural (value : Nat)
  | text (value : String)
  | other
  deriving DecidableEq, Inhabited

/-- A value of any shape with at most the given depth of brackets. -/
def anyValue : Nat → Decoder Scalar
  | 0 => throw .malformed
  | depth + 1 => do
    match ← peekToken with
    | none => throw .truncated
    | some 'n' => eat; restOfWord ['u', 'l', 'l']; pure .other
    | some 't' => eat; restOfWord ['r', 'u', 'e']; pure .other
    | some 'f' => eat; restOfWord ['a', 'l', 's', 'e']; pure .other
    | some '-' => eat; let _ ← number false; pure .other
    | some '"' => eat; pure (.text (← restOfString))
    | some '[' =>
      if depth = 0 then throw .malformed
      eat
      let _ ← elements (anyValue depth) (← budget) true
      eat
      pure .other
    | some '{' =>
      if depth = 0 then throw .malformed
      eat
      let member := fun (_ : Unit) (_ : String) => do
        colon
        let _ ← anyValue depth
        pure ()
      members member (← budget) true ()
      eat
      pure .other
    | some c =>
      if c.isDigit then
        match ← number true with
        | some value => pure (.natural value)
        | none => pure .other
      else throw .malformed

/-- The value of a whole text. -/
def readAll {α : Type} (item : Decoder α) (text : String) : Except Fault α := do
  let (value, rest) ← item.run text.toList
  if rest.all isSpace then pure value else throw .malformed

end QuestScript.Json
