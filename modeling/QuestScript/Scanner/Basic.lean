import QuestScript.Diagnostic
import QuestScript.Extension
import QuestScript.Scanner.Lexeme
import QuestScript.Text.Digits

/-!
# The scanner

The scanner delivers the tokens of a script one at a time, since whoever reads them may change
the modes between two tokens. One token can be put back, to be delivered next.

The main statement is `Scanner.unread_pull_lt`: unless the text is at its end, a pull leaves less
to read, counting two for each character and one for a token that has been put back.
-/

namespace QuestScript

/-- A problem that the scanner noticed, with its place. -/
inductive Report where
  | warning (problem : Problem) (location : Location)
  | error (problem : Problem) (location : Location)
  deriving DecidableEq

/-- Enters a report in the log. -/
def Log.enter (log : Log) : Report → Log
  | .warning problem location => log.warning problem.message location
  | .error problem location => log.error problem.message location

theorem Log.precedes_enter (log : Log) (report : Report) : log.Precedes (log.enter report) := by
  cases report with
  | warning problem location => exact log.precedes_warning _ _
  | error problem location => exact log.precedes_error _ _

theorem Log.precedes_foldl_enter (log : Log) (reports : List Report) :
    log.Precedes (reports.foldl Log.enter log) := by
  induction reports generalizing log with
  | nil => exact .refl log
  | cons report reports ih => exact (log.precedes_enter report).trans (ih _)

/-- The state of reading a text. -/
structure Scanner where
  /-- The characters that have not been read. -/
  rest : List Char
  /-- The number of line ends that have been read. -/
  line : Nat := 0
  /-- The number of characters that have been read on the current line. -/
  column : Nat := 0
  /-- The token that has been put back. -/
  pending : Option (Token × Location) := none
  /-- How the next lexeme is read. -/
  modes : Modes := {}
  /-- The token delivered last was the end of a line, or there was none yet. -/
  lineStart : Bool := true
  /-- The tokens that have been put back and replaced by others before they were delivered. -/
  replaced : List (Token × Location) := []
  deriving DecidableEq, Inhabited

/-- What a pull brings. -/
inductive Item where
  /-- A part of the text without a token. -/
  | blank
  /-- A token with its place. If it was read in tolerant mode for this once, the setting to
  return to after its delivery comes with it. -/
  | token (token : Token) (location : Location) (tolerantAfter : Option Bool)
  /-- A part of the text that forms no token. -/
  | malformed (location : Location)
  /-- The end of the text. -/
  | ended
  deriving DecidableEq

/-- The result of a pull. -/
structure Pulled where
  item : Item
  scanner : Scanner
  reports : List Report := []
  deriving DecidableEq

namespace Scanner

/-- A scanner at the start of a text. -/
def ofText (source : String) : Scanner :=
  { rest := source.toList }

/-- How much is left to read: two for each character, one for a token that has been put back. -/
def unread (s : Scanner) : Nat :=
  2 * s.rest.length + (if s.pending.isSome then 1 else 0)

/-- Makes a token the next to be delivered. -/
def putBack (s : Scanner) (token : Token) (location : Location) : Scanner :=
  { s with pending := some (token, location), replaced := s.replaced ++ s.pending.toList }

/-- Changes the modes. -/
def mapModes (s : Scanner) (change : Modes → Modes) : Scanner :=
  { s with modes := change s.modes }

/-- The part of a text behind its last line end. -/
def lastLine (text : List Char) : List Char :=
  (text.reverse.takeWhile (· != '\n')).reverse

/-- Moves over a text that has been read. A line end in it starts a new line with fresh modes. -/
def pass (s : Scanner) (text : List Char) : Scanner :=
  let crossed := text.contains '\n'
  { s with
    rest := s.rest.drop text.length
    line := s.line + text.count '\n'
    column := if crossed then (lastLine text).length else s.column + text.length
    modes := if crossed then s.modes.newLine else s.modes }

/-- The place behind the text that has been read, with a spelling. -/
def location (s : Scanner) (literal : List Char) : Location :=
  ⟨s.line, s.column, String.ofList literal⟩

/-- Delivers a token. -/
def deliver (s : Scanner) (token : Token) (location : Location)
    (tolerantAfter : Option Bool := none) (reports : List Report := []) : Pulled :=
  ⟨.token token location tolerantAfter,
    { s with lineStart := decide (token = .special .newline) }, reports⟩

/-- Delivers a name, or the keyword that it spells. The keyword for message boxes allows texts
that run over line ends. -/
def deliverWord (s : Scanner) (registry : Registry) (name : String) (location : Location)
    (tolerantAfter : Option Bool := none) (reports : List Report := []) : Pulled :=
  match registry.keyword? (Text.toLower name) with
  | none => s.deliver (.name name) location tolerantAfter reports
  | some keyword =>
    let s :=
      if keyword = .builtin .messageBox then
        s.mapModes fun modes => { modes with ignoreNewline := true }
      else s
    s.deliver (.keyword keyword) location tolerantAfter reports

/-- The largest integer of a script. -/
def largestInteger : Nat := Nat.pow 2 31 - 1

/-- The value of the digits of an integer; larger numbers become the largest integer. -/
def integerValue (digits : List Char) : Int32 :=
  Int32.ofNat (min (Text.valueOfDigits digits) largestInteger)

/-- The value of a number with a point. -/
def decimalValue (whole fraction : List Char) : Binary32 :=
  Binary32.ofDecimal false (Text.valueOfDigits (whole ++ fraction)) (-fraction.length)

/-- One warning for each line end inside a quoted text that starts on the given line. -/
def newlineReports (line : Nat) (text : List Char) : List Report :=
  (List.range (text.count '\n')).map fun k =>
    .warning .newlineInString ⟨line + k + 1, 0, ""⟩

/-- The text without blanks at its end. -/
def trimEnd (text : List Char) : List Char :=
  (text.reverse.dropWhile Lexeme.isInnerBlank).reverse

/-- What a lexeme brings. The scanner has moved over its `text`, which started on the line
`line`. -/
def settle (s : Scanner) (registry : Registry) (line : Nat) (text : List Char) :
    Lexeme → Pulled
  | .blank => ⟨.blank, s, []⟩
  | .comment => s.deliver (.comment (String.ofList text.tail)) (s.location text)
  | .word => s.deliverWord registry (String.ofList text) (s.location text)
  | .signedWord =>
    let tolerant := s.mapModes fun modes => { modes with tolerantNames := true }
    tolerant.deliverWord registry (String.ofList text) (s.location text)
      (some s.modes.tolerantNames)
  | .quoted body closed =>
    let place := s.location (lastLine text)
    let reports := newlineReports line text
    if closed && s.modes.strictKeywords then
      s.deliver (.name (String.ofList body)) place none reports
    else
      let name := if closed then body else text
      s.deliverWord registry (String.ofList name) place none reports
  | .strayQuote => ⟨.blank, s, [.warning .strayString (s.location text)]⟩
  | .openQuote =>
    ⟨.malformed (s.location text), s, [.error .incompleteString (s.location text)]⟩
  | .integer => s.deliver (.int (integerValue text)) (s.location text)
  | .decimal whole fraction =>
    s.deliver (.float (decimalValue whole fraction)) (s.location text)
  | .brokenDecimal => ⟨.malformed (s.location text), s, []⟩
  | .strays => ⟨.blank, s, [.warning .straySpecial (s.location text)]⟩
  | .sign .newline =>
    let fresh := s.mapModes fun modes => { modes with ignoreNewline := false }
    fresh.deliver (.special .newline) ⟨s.line, s.column, "<newline>"⟩
  | .sign special => s.deliver (.special special) (s.location text)
  | .comparison kind proper =>
    let place := s.location (trimEnd text)
    let written := String.ofList (text.filter (!Lexeme.isInnerBlank ·))
    let reports := if proper then [] else [.warning (.invalidOperator written kind) place]
    s.deliver (.special (.comparison kind)) place none reports
  | .unknown => ⟨.malformed (s.location (trimEnd text)), s, []⟩

/-- Delivers a token once more, as if it had been put back and pulled. -/
def redeliver (s : Scanner) (token : Token) : Scanner :=
  { s with
    pending := none
    lineStart := decide (token = .special .newline)
    replaced := s.replaced ++ s.pending.toList }

/-- The next part of the text: the token that has been put back, or the next lexeme. -/
def pull (s : Scanner) (registry : Registry) : Pulled :=
  match s.pending with
  | some (token, location) => { s with pending := none }.deliver token location
  | none =>
    match s.rest with
    | [] => ⟨.ended, s, []⟩
    | c :: rest =>
      let (lexeme, tail) := Lexeme.read s.modes c rest
      let text := c :: tail
      let moved := (s.mapModes (·.start (Start.of c))).pass text
      moved.settle registry s.line text lexeme

/-! ### How much is left to read -/

@[simp] theorem unread_map_modes (s : Scanner) (change : Modes → Modes) :
    (s.mapModes change).unread = s.unread := rfl

@[simp] theorem unread_deliver (s : Scanner) (token : Token) (location : Location)
    (tolerantAfter : Option Bool) (reports : List Report) :
    (s.deliver token location tolerantAfter reports).scanner.unread = s.unread := rfl

/-- A word changes the modes at most. -/
theorem scanner_deliver_word (s : Scanner) (registry : Registry) (name : String)
    (location : Location) (tolerantAfter : Option Bool) (reports : List Report) :
    ∃ modes lineStart, (s.deliverWord registry name location tolerantAfter reports).scanner =
      { s with modes, lineStart } := by
  unfold deliverWord
  split
  · exact ⟨_, _, rfl⟩
  · split <;> exact ⟨_, _, rfl⟩

/-- Behind a lexeme the scanner stays where it is, whatever the lexeme brings. -/
theorem scanner_settle (s : Scanner) (registry : Registry) (line : Nat) (text : List Char)
    (lexeme : Lexeme) :
    ∃ modes lineStart, (s.settle registry line text lexeme).scanner =
      { s with modes, lineStart } := by
  cases lexeme with
  | quoted body closed =>
    simp only [settle]
    split
    · exact ⟨_, _, rfl⟩
    · exact scanner_deliver_word _ _ _ _ _ _
  | sign special => cases special <;> exact ⟨_, _, rfl⟩
  | word => exact scanner_deliver_word _ _ _ _ _ _
  | signedWord => exact scanner_deliver_word _ _ _ _ _ _
  | _ => exact ⟨_, _, rfl⟩

@[simp] theorem unread_settle (s : Scanner) (registry : Registry) (line : Nat)
    (text : List Char) (lexeme : Lexeme) :
    (s.settle registry line text lexeme).scanner.unread = s.unread := by
  obtain ⟨_, _, h⟩ := s.scanner_settle registry line text lexeme
  rw [h]
  rfl

theorem item_deliver_word_ne_ended (s : Scanner) (registry : Registry) (name : String)
    (location : Location) (tolerantAfter : Option Bool) (reports : List Report) :
    (s.deliverWord registry name location tolerantAfter reports).item ≠ .ended := by
  unfold deliverWord
  split <;> simp [deliver]

/-- A lexeme is never the end of the text. -/
theorem item_settle_ne_ended (s : Scanner) (registry : Registry) (line : Nat)
    (text : List Char) (lexeme : Lexeme) :
    (s.settle registry line text lexeme).item ≠ .ended := by
  cases lexeme with
  | quoted body closed =>
    simp only [settle]
    split
    · simp [deliver]
    · exact item_deliver_word_ne_ended _ _ _ _ _ _
  | sign special => cases special <;> simp [settle, deliver]
  | word => exact item_deliver_word_ne_ended _ _ _ _ _ _
  | signedWord => exact item_deliver_word_ne_ended _ _ _ _ _ _
  | _ => simp [settle, deliver]

/-- Putting a token back adds at most one. -/
theorem unread_put_back_le (s : Scanner) (token : Token) (location : Location) :
    (s.putBack token location).unread ≤ s.unread + 1 := by
  simp only [putBack, unread, Option.isSome_some, if_true]
  split <;> omega

theorem unread_redeliver_le (s : Scanner) (token : Token) :
    (s.redeliver token).unread ≤ s.unread := by
  simp only [redeliver, unread, Option.isSome_none, Bool.false_eq_true, if_false]
  omega

/-- Putting a token back and pulling it is to deliver it once more. -/
theorem pull_put_back (s : Scanner) (registry : Registry) (token : Token) (location : Location) :
    (s.putBack token location).pull registry =
      ⟨.token token location none, s.redeliver token, []⟩ := rfl

/-- A pull leaves the scanner as it is at the end of the text, and otherwise leaves less to
read. -/
theorem unread_pull_lt (s : Scanner) (registry : Registry)
    (h : (s.pull registry).item ≠ .ended) :
    (s.pull registry).scanner.unread < s.unread := by
  unfold pull at h ⊢
  cases hpending : s.pending with
  | some waiting =>
    obtain ⟨token, location⟩ := waiting
    simp only [unread_deliver]
    simp [unread, hpending]
  | none =>
    cases hrest : s.rest with
    | nil => simp [hpending, hrest] at h
    | cons c rest =>
      simp only [unread_settle]
      simp only [pass, mapModes, unread, hpending, hrest, List.length_drop, List.length_cons]
      omega

/-- At the end of the text a pull changes nothing. -/
theorem scanner_pull_of_ended (s : Scanner) {registry : Registry}
    (h : (s.pull registry).item = .ended) : (s.pull registry).scanner = s := by
  unfold pull at h ⊢
  cases hpending : s.pending with
  | some waiting => simp [hpending, deliver] at h
  | none =>
    cases hrest : s.rest with
    | nil => rfl
    | cons c rest =>
      simp only [hpending, hrest] at h
      exact absurd h (item_settle_ne_ended _ _ _ _ _)

/-! ### The token that waits -/

/-- No pull replaces a token. -/
theorem replaced_pull (s : Scanner) (registry : Registry) :
    (s.pull registry).scanner.replaced = s.replaced := by
  unfold pull
  split
  · rfl
  · split
    · rfl
    · obtain ⟨_, _, h⟩ := Scanner.scanner_settle _ registry _ _ _
      rw [h]
      rfl

/-- Behind a pull no token waits. -/
theorem pending_pull (s : Scanner) (registry : Registry) :
    (s.pull registry).scanner.pending = none := by
  unfold pull
  split
  · rfl
  next hpending =>
    split
    · exact hpending
    · obtain ⟨_, _, h⟩ := Scanner.scanner_settle _ registry _ _ _
      rw [h]
      exact hpending

end Scanner

end QuestScript
