import QuestScript.Proofs.Tracking

/-!
# Reading character by character

A `Scanner` cuts whole lexemes out of a text. A `Cursor` gets the characters one at a time: it keeps
its place and the spelling of the token under way as it goes, and it finds the end of a lexeme by
getting a character too many and going back over it. Going back restores the one place that the
cursor remembers, but not the modes, which the end of a line has reset by then.

The two do the same (`Cursor.Follows.pull`): used in the same way, they bring the same items and
reports, and the spelling is empty again behind each of them. So the places that a cursor keeps on
its way are exact (`Cursor.location_exact`).
-/

namespace QuestScript

/-- The state of reading a text character by character. -/
structure Cursor where
  /-- The characters that have been read, the last one first. -/
  before : List Char := []
  /-- The characters that have not been read. -/
  rest : List Char
  /-- The place that has been reached, with the spelling that has been gathered. -/
  place : Location := {}
  /-- The place in front of the character that was got last. -/
  previous : Location := {}
  /-- The token that has been put back. -/
  pending : Option (Token × Location) := none
  /-- How the next lexeme is read. -/
  modes : Modes := {}
  /-- The token delivered last was the end of a line, or there was none yet. -/
  lineStart : Bool := true

/-- What a pull of a cursor brings. -/
structure Cursor.Step where
  item : Item
  cursor : Cursor
  reports : List Report := []

namespace Cursor

/-! ### Characters -/

/-- A cursor at the start of a text. -/
def ofText (source : String) : Cursor :=
  { rest := source.toList }

/-- Gets the next character. The end of a line starts a new line with fresh modes. -/
def get? (c : Cursor) : Option (Char × Cursor) :=
  match c.rest with
  | [] => none
  | d :: rest =>
    let moved := { c with before := d :: c.before, rest, previous := c.place }
    some (d,
      if d = '\n' then
        { moved with place := ⟨c.place.line + 1, 0, ""⟩, modes := c.modes.newLine }
      else
        { moved with
          place := ⟨c.place.line, c.place.column + 1, c.place.literal.push d⟩ })

/-- Goes back over the character that was got last, to the place that is remembered. -/
def unget (c : Cursor) : Cursor :=
  match c.before with
  | [] => c
  | d :: before => { c with before, rest := d :: c.rest, place := c.previous, previous := {} }

/-- Drops the spelling that has been gathered. -/
def clear (c : Cursor) : Cursor :=
  { c with place := { c.place with literal := "" } }

/-- Drops the blanks at the end of the spelling. -/
def trim (c : Cursor) : Cursor :=
  { c with place :=
    { c.place with literal := String.ofList (Scanner.trimEnd c.place.literal.toList) } }

/-- Changes the modes. -/
def mapModes (c : Cursor) (change : Modes → Modes) : Cursor :=
  { c with modes := change c.modes }

theorem length_rest_lt {c next : Cursor} {d : Char} (h : c.get? = some (d, next)) :
    next.rest.length < c.rest.length := by
  unfold get? at h
  split at h
  · cases h
  next hrest =>
    cases h
    rw [hrest]
    split <;> exact Nat.lt_succ_self _

/-- Gets characters as long as they go on, and the one behind them, which comes last. -/
def advance (goesOn : Cursor → Char → Bool) (c : Cursor) (text : List Char) :
    List Char × Cursor × Option Char :=
  match _ : c.get? with
  | none => (text, c, none)
  | some (d, next) =>
    if goesOn next d then next.advance goesOn (text ++ [d])
    else (text, next, some d)
termination_by c.rest.length
decreasing_by exact length_rest_lt ‹_›

/-- Gets characters as long as they go on. The one behind them is only looked at. -/
def peekWhile (goesOn : Char → Bool) (c : Cursor) (text : List Char) : List Char × Cursor :=
  match _ : c.get? with
  | none => (text, c)
  | some (d, next) =>
    if goesOn d then next.peekWhile goesOn (text ++ [d])
    else (text, c)
termination_by c.rest.length
decreasing_by exact length_rest_lt ‹_›

/-- Goes back over the character that ended a run. -/
def settleBack (c : Cursor) (stop : Option Char) : Cursor :=
  if stop.isSome then c.unget else c

/-! ### Tokens -/

/-- Delivers a token with the place that has been reached. -/
def deliver (c : Cursor) (token : Token) (tolerantAfter : Option Bool := none)
    (reports : List Report := []) : Step :=
  ⟨.token token c.place tolerantAfter,
    { c.clear with lineStart := decide (token = .special .newline) }, reports⟩

/-- Delivers a name, or the keyword that it spells. -/
def deliverWord (c : Cursor) (registry : Registry) (name : List Char)
    (tolerantAfter : Option Bool := none) (reports : List Report := []) : Step :=
  match registry.keyword? (Text.toLower (String.ofList name)) with
  | none => c.deliver (.name (String.ofList name)) tolerantAfter reports
  | some keyword =>
    let c :=
      if keyword = .builtin .messageBox then
        c.mapModes fun modes => { modes with ignoreNewline := true }
      else c
    c.deliver (.keyword keyword) tolerantAfter reports

/-- Delivers a name. A text in quotes loses them, and is no keyword in strict mode. -/
def deliverName (c : Cursor) (registry : Registry) (name : List Char)
    (tolerantAfter : Option Bool := none) (reports : List Report := []) : Step :=
  if 2 ≤ name.length ∧ name.head? = some '"' ∧ name.getLast? = some '"' then
    let body := name.tail.dropLast
    if c.modes.strictKeywords then c.deliver (.name (String.ofList body)) tolerantAfter reports
    else c.deliverWord registry body tolerantAfter reports
  else c.deliverWord registry name tolerantAfter reports

/-- Reads a comment behind its semicolon. -/
def scanComment (c : Cursor) : Step :=
  let (comment, c, stop) := c.advance (fun _ d => d != '\n') []
  (c.settleBack stop).deliver (.comment (String.ofList comment))

/-- Reads the rest of a name without quotes. -/
def scanName (c : Cursor) (registry : Registry) (name : List Char)
    (tolerantAfter : Option Bool := none) : Step :=
  let (name, c, stop) := c.advance
    (fun next d => Lexeme.continuesName next.modes.tolerantNames d next.rest) name
  (c.settleBack stop).deliverName registry name tolerantAfter

/-- Reads a name that starts with a sign, in tolerant mode for this once. -/
def scanSigned (c : Cursor) (registry : Registry) (d : Char) : Step :=
  (c.mapModes fun modes => { modes with tolerantNames := true }).scanName registry [d]
    (some c.modes.tolerantNames)

/-- Reads the rest of a quoted text. -/
def scanQuoted (c : Cursor) (registry : Registry) (name : List Char) (reports : List Report) :
    Step :=
  match _ : c.get? with
  | none => c.deliverName registry name none reports
  | some (d, next) =>
    if d = '"' then next.deliverName registry (name ++ [d]) none reports
    else if d = '\n' then
      if next.modes.ignoreNewline then
        next.scanQuoted registry (name ++ [d])
          (reports ++ [.warning .newlineInString next.place])
      else if Lexeme.isBlankLine name.tail then
        ⟨.blank, next.unget.clear, reports ++ [.warning .strayString next.unget.place]⟩
      else
        ⟨.malformed next.unget.place, next.unget.clear,
          reports ++ [.error .incompleteString next.unget.place]⟩
    else next.scanQuoted registry (name ++ [d]) reports
termination_by c.rest.length
decreasing_by all_goals exact length_rest_lt ‹_›

/-- Reads a number behind its point. -/
def scanFloat (c : Cursor) (whole : List Char) : Step :=
  let (run, c, stop) := c.advance
    (fun _ d => d.isDigit || Text.isAlphabetic d || d == '_') []
  let c := c.settleBack stop
  let fraction := run.filter Char.isDigit
  if whole.isEmpty && fraction.isEmpty || !run.all Char.isDigit then
    ⟨.malformed c.place, c.clear, []⟩
  else c.deliver (.float (Scanner.decimalValue whole fraction))

/-- Reads a number behind its first digit, or a name that starts with digits. -/
def scanInt (c : Cursor) (registry : Registry) (first : Char) : Step :=
  let (value, c, stop) := c.advance (fun _ d => d.isDigit) [first]
  match stop with
  | none => c.deliver (.int (Scanner.integerValue value))
  | some d =>
    if Lexeme.isNameChar d then c.scanName registry (value ++ [d])
    else if d = '.' then c.scanFloat value
    else c.unget.deliver (.int (Scanner.integerValue value))

/-- Reads a comparison behind its first character. Blanks at its end are got, but not spelled. -/
def scanComparison (c : Cursor) (first : Char) : Step :=
  let (run, c) := c.peekWhile
    (fun d => d == '=' || d == '!' || d == '<' || d == '>' || Lexeme.isInnerBlank d) []
  let c := c.trim
  let written := (first :: run).filter (!Lexeme.isInnerBlank ·)
  match Lexeme.comparisonOf? written with
  | none => ⟨.malformed c.place, c.clear, []⟩
  | some (kind, proper) =>
    c.deliver (.special (.comparison kind)) none
      (if proper then [] else [.warning (.invalidOperator (String.ofList written) kind) c.place])

/-- Reads what a special character starts. -/
def scanSpecial (c : Cursor) (registry : Registry) (expectName : Bool) (d : Char) : Step :=
  if d = '\n' then
    let c := c.mapModes fun modes => { modes with ignoreNewline := false }
    { c with place := { c.place with literal := "<newline>" } }.deliver (.special .newline)
  else if c.modes.ignoreSpecial then
    let (_, c) := c.peekWhile (!Lexeme.endsStrays ·) []
    ⟨.blank, c.clear, [.warning .straySpecial c.place]⟩
  else if d = '(' ∨ d = '[' then c.deliver (.special .opening)
  else if d = ')' ∨ d = ']' then c.deliver (.special .closing)
  else if d = '.' then
    if c.rest.head?.any Char.isDigit then c.scanFloat []
    else if expectName then c.scanSigned registry d
    else c.deliver (.special .member)
  else if d = ',' then c.deliver (.special .comma)
  else if d = '-' then
    if c.rest.head? = some '>' then
      ((c.get?.map Prod.snd).getD c).deliver (.special .reference)
    else if expectName then c.scanSigned registry d
    else c.deliver (.special .minus)
  else if d = '=' ∨ d = '!' ∨ d = '<' ∨ d = '>' then c.scanComparison d
  else if d = '+' then c.deliver (.special .plus)
  else if d = '*' then c.deliver (.special .times)
  else if d = '/' then c.deliver (.special .divided)
  else ⟨.malformed c.place, c.clear, []⟩

/-- Reads what the character that was just got starts. -/
def scan (c : Cursor) (registry : Registry) (d : Char) : Step :=
  let started := c.mapModes (·.start (Start.of d))
  match Start.of d with
  | .comment => started.scanComment
  | .blank => ⟨.blank, started.clear, []⟩
  | .word =>
    if d = '"' then started.scanQuoted registry [d] []
    else started.scanName registry [d]
  | .digit =>
    if c.modes.expectName then started.scanName registry [d]
    else started.scanInt registry d
  | .special => started.scanSpecial registry c.modes.expectName d

/-- The next part of the text: the token that has been put back, or what the next character
starts. -/
def pull (c : Cursor) (registry : Registry) : Step :=
  match c.pending with
  | some (token, place) =>
    ⟨.token token place none,
      { c with pending := none, lineStart := decide (token = .special .newline) }, []⟩
  | none =>
    match c.get? with
    | none => ⟨.ended, c, []⟩
    | some (d, c) => c.scan registry d

end Cursor

/-! ### One character more -/

namespace Scanner

variable {s : Scanner} {text : List Char} {d : Char}

theorem last_line_concat (hd : d ≠ '\n') : lastLine (text ++ [d]) = lastLine text ++ [d] := by
  simp [lastLine, hd]

theorem last_line_newline : lastLine (text ++ ['\n']) = [] := by
  simp [lastLine]

/-- The place and the spelling behind one more character. -/
theorem location_pass_concat :
    (s.pass (text ++ [d])).location (lastLine (text ++ [d])) =
      if d = '\n' then ⟨(s.pass text).line + 1, 0, ""⟩
      else ⟨(s.pass text).line, (s.pass text).column + 1,
        (String.ofList (lastLine text)).push d⟩ := by
  by_cases hd : d = '\n'
  · subst hd
    simp [location, pass, last_line_newline, Nat.add_assoc]
  · have hcount : List.count '\n' [d] = 0 := List.count_eq_zero.2 (by simpa using Ne.symm hd)
    simp only [location, pass, last_line_concat hd, if_neg hd, List.count_append, hcount,
      Nat.add_zero, List.length_append, List.length_singleton]
    have hcrossed : (text ++ [d]).contains '\n' = text.contains '\n' := by
      simp [Ne.symm hd]
    rw [hcrossed]
    split <;> simp [Nat.add_assoc]

/-- The modes behind one more character. -/
theorem modes_pass_concat :
    (s.pass (text ++ [d])).modes =
      if d = '\n' then (s.pass text).modes.newLine else (s.pass text).modes := by
  by_cases hd : d = '\n'
  · subst hd
    by_cases hcrossed : '\n' ∈ text <;> simp [pass, hcrossed, Modes.newLine]
  · simp [pass, hd, Ne.symm hd]

end Scanner

namespace Cursor

/-! ### Where a cursor stands -/

variable {c next : Cursor} {s : Scanner} {registry : Registry} {d : Char}
  {text literal rest name : List Char} {token : Token} {place : Location}
  {tolerantAfter : Option Bool} {reports : List Report}

/-- The cursor has come as far as the scanner and has gathered this spelling. In front of the end of
a line the modes do not matter, since it resets them. -/
structure Stands (s : Scanner) (literal : List Char) (c : Cursor) : Prop where
  rest : c.rest = s.rest
  place : c.place = s.location literal
  modes : c.rest.head? = some '\n' ∨ c.modes = s.modes
  pending : c.pending = s.pending
  lineStart : c.lineStart = s.lineStart

/-- Between two tokens the cursor has come as far as the scanner, and its spelling is empty. -/
abbrev Follows (c : Cursor) (s : Scanner) : Prop :=
  Stands s [] c

/-- The scanner is in front of a lexeme, and the cursor has got the first characters of it. -/
structure Along (s : Scanner) (text : List Char) (c : Cursor) : Prop
    extends Stands (s.pass text) (Scanner.lastLine text) c where
  split : s.rest = text ++ c.rest
  modes_eq : c.modes = (s.pass text).modes

/-- The pulls bring the same, and the cursor follows the scanner. -/
structure Matches (step : Step) (pulled : Pulled) : Prop where
  item : step.item = pulled.item
  reports : step.reports = pulled.reports
  follows : Follows step.cursor pulled.scanner

theorem Stands.clear (h : Stands s literal c) : Follows c.clear s := by
  refine ⟨h.rest, ?_, h.modes, h.pending, h.lineStart⟩
  rw [Cursor.clear, h.place]
  rfl

theorem Stands.trim (h : Stands s literal c) : Stands s (Scanner.trimEnd literal) c.trim := by
  refine ⟨h.rest, ?_, h.modes, h.pending, h.lineStart⟩
  rw [Cursor.trim, h.place, Scanner.location, String.toList_ofList]
  rfl

/-- Modes are changed alike. -/
theorem Stands.map_modes (h : Stands s literal c) (change : Modes → Modes) :
    Stands (s.mapModes change) literal (c.mapModes change) :=
  ⟨h.rest, h.place, h.modes.imp_right (congrArg change), h.pending, h.lineStart⟩

theorem Stands.deliver (h : Stands s literal c) :
    Matches (c.deliver token tolerantAfter reports)
      (s.deliver token (s.location literal) tolerantAfter reports) := by
  have hclear := h.clear
  refine ⟨?_, rfl, hclear.rest, hclear.place, hclear.modes, hclear.pending, rfl⟩
  rw [Cursor.deliver, Scanner.deliver, h.place]

theorem Stands.deliver_word (h : Stands s literal c) :
    Matches (c.deliverWord registry name tolerantAfter reports)
      (s.deliverWord registry (String.ofList name) (s.location literal) tolerantAfter reports) := by
  unfold deliverWord Scanner.deliverWord
  cases registry.keyword? (Text.toLower (String.ofList name)) with
  | none => exact h.deliver
  | some keyword =>
      dsimp only
      split
      · exact (h.map_modes _).deliver
      · exact h.deliver

/-- A name without quotes is a name or a keyword. -/
theorem Stands.deliver_name (h : Stands s literal c) (hname : name.head? ≠ some '"') :
    Matches (c.deliverName registry name tolerantAfter reports)
      (s.deliverWord registry (String.ofList name) (s.location literal) tolerantAfter reports) := by
  unfold deliverName
  rw [if_neg fun hquoted => hname hquoted.2.1]
  exact h.deliver_word

/-! ### One character -/

theorem get?_of_rest (h : c.rest = d :: rest) :
    ∃ next, c.get? = some (d, next) ∧ next.rest = rest ∧ next.pending = c.pending ∧
      next.lineStart = c.lineStart ∧
      next.place = (if d = '\n' then ⟨c.place.line + 1, 0, ""⟩
        else ⟨c.place.line, c.place.column + 1, c.place.literal.push d⟩) ∧
      next.modes = (if d = '\n' then c.modes.newLine else c.modes) ∧
      next.unget = { c with previous := {}, modes := next.modes } := by
  obtain ⟨before, _, place, previous, pending, modes, lineStart⟩ := c
  cases h
  by_cases hd : d = '\n'
  · simp [get?, hd, unget]
  · simp [get?, hd, unget]

theorem Along.get (h : Along s text c) (hrest : c.rest = d :: rest) :
    ∃ next, c.get? = some (d, next) ∧ next.rest = rest ∧ Along s (text ++ [d]) next ∧
      Stands (s.pass text) (Scanner.lastLine text) next.unget := by
  obtain ⟨next, hget, hnext, hpending, hlineStart, hplace, hmodes, hunget⟩ := get?_of_rest hrest
  have hsplit : s.rest = text ++ [d] ++ next.rest := by
    rw [h.split, hrest, hnext, List.append_assoc, List.singleton_append]
  have hmodes' : next.modes = (s.pass (text ++ [d])).modes := by
    rw [hmodes, Scanner.modes_pass_concat, h.modes_eq]
  refine ⟨next, hget, hnext, ⟨⟨?_, ?_, Or.inr hmodes', ?_, ?_⟩, hsplit, hmodes'⟩, ?_⟩
  · rw [Scanner.pass, hsplit, List.drop_left]
  · rw [hplace, Scanner.location_pass_concat, h.place]
    rfl
  · rw [hpending, h.pending]
    rfl
  · rw [hlineStart, h.lineStart]
    rfl
  · rw [hunget]
    refine ⟨h.rest, h.place, ?_, h.pending, h.lineStart⟩
    rw [hmodes]
    split
    next hd => exact Or.inl (by rw [hrest, hd]; rfl)
    · exact Or.inr h.modes_eq

/-! ### Runs of characters -/

section Run

variable {goesOn : Cursor → Char → Bool} {acc : List Char}

theorem get?_of_nil (h : c.rest = []) : c.get? = none := by
  unfold get?
  rw [h]

/-- A run of characters has ended in front of a character that was got too many, or of the end of
the text. -/
inductive Halts (stop : Cursor) (text : List Char) : List Char × Cursor × Option Char → Prop where
  | ended (hrest : stop.rest = []) : Halts stop text (text, stop, none)
  | tooFar {d : Char} {next : Cursor} (hget : stop.get? = some (d, next))
      (hrest : stop.rest = d :: next.rest) : Halts stop text (text, next, some d)

/-- A run of characters goes as far as it is said to. -/
theorem Along.advance (h : Along s text c) (hline : '\n' ∉ text)
    (goesOn : Cursor → Char → Bool) (goes : Char → List Char → Bool)
    (run : List Char → List Char) (hnil : run [] = [])
    (hcons : ∀ d rest, run (d :: rest) = if goes d rest then d :: run rest else [])
    (hgoes : ∀ text d next, '\n' ∉ text → Along s (text ++ [d]) next →
      goesOn next d = goes d next.rest)
    (hnewline : ∀ rest, goes '\n' rest = false) (acc : List Char) :
    ∃ stop, Along s (text ++ run c.rest) stop ∧ '\n' ∉ text ++ run c.rest ∧
      Halts stop (acc ++ run c.rest) (c.advance goesOn acc) := by
  induction hrest : c.rest generalizing c text acc with
  | nil =>
      rw [hnil, List.append_nil, List.append_nil, advance, get?_of_nil hrest]
      exact ⟨c, h, hline, .ended hrest⟩
  | cons d rest ih =>
      obtain ⟨next, hget, hnext, halong, -⟩ := h.get hrest
      have hstep := hgoes text d next hline halong
      rw [hnext] at hstep
      rw [hcons, advance, hget]
      dsimp only
      rw [hstep]
      cases hd : goes d rest with
      | true =>
          have hne : '\n' ≠ d := by
            rintro rfl
            rw [hnewline] at hd
            cases hd
          have hends := ih halong (by simp [hline, hne]) (acc ++ [d]) hnext
          simpa only [List.append_assoc, List.singleton_append, if_true] using hends
      | false =>
          simp only [Bool.false_eq_true, if_false, List.append_nil]
          exact ⟨c, h, hline, .tooFar hget (hnext ▸ hrest)⟩

theorem Along.stands (h : Along s text c) (hline : '\n' ∉ text) : Stands (s.pass text) text c := by
  have hstands := h.toStands
  rwa [Scanner.last_line_of_not_mem hline] at hstands

/-- Behind a run the cursor has gone back over the character that was got too many. -/
theorem Along.settle_back {r : List Char × Cursor × Option Char} {stop : Cursor}
    (h : Along s text stop) (hline : '\n' ∉ text) (hends : Halts stop acc r) :
    r.1 = acc ∧ Stands (s.pass text) text (r.2.1.settleBack r.2.2) := by
  cases hends with
  | ended hrest => exact ⟨rfl, h.stands hline⟩
  | tooFar hget hrest =>
      obtain ⟨_, hget', -, -, hstands⟩ := h.get hrest
      cases hget.symm.trans hget'
      rw [Scanner.last_line_of_not_mem hline] at hstands
      exact ⟨rfl, hstands⟩

/-- A run that is only looked at ends in front of the character behind it. -/
theorem Along.peek_while (h : Along s text c) (hline : '\n' ∉ text) (peeked : Char → Bool)
    (hnewline : peeked '\n' = false) (acc : List Char) :
    (c.peekWhile peeked acc).1 = acc ++ c.rest.takeWhile peeked ∧
      Along s (text ++ c.rest.takeWhile peeked) (c.peekWhile peeked acc).2 ∧
      '\n' ∉ text ++ c.rest.takeWhile peeked := by
  induction hrest : c.rest generalizing c text acc with
  | nil =>
      rw [peekWhile, get?_of_nil hrest, List.takeWhile_nil, List.append_nil,
        List.append_nil]
      exact ⟨rfl, h, hline⟩
  | cons d rest ih =>
      obtain ⟨next, hget, hnext, halong, -⟩ := h.get hrest
      rw [peekWhile, hget, List.takeWhile_cons]
      dsimp only
      cases hd : peeked d with
      | true =>
          have hne : '\n' ≠ d := by
            rintro rfl
            rw [hnewline] at hd
            cases hd
          have hends := ih halong (by simp [hline, hne]) (acc ++ [d]) hnext
          simpa only [List.append_assoc, List.singleton_append, if_true] using hends
      | false =>
          rw [if_neg Bool.false_ne_true, if_neg Bool.false_ne_true, List.append_nil,
            List.append_nil]
          exact ⟨rfl, h, hline⟩

end Run

/-! ### Lexemes -/

/-- The cursor brings what the lexeme brings that starts with the characters in front. -/
def Brings (s : Scanner) (registry : Registry) (line : Nat) (front : List Char)
    (found : Lexeme × List Char) (step : Step) : Prop :=
  Matches step ((s.pass (front ++ found.2)).settle registry line (front ++ found.2) found.1)

section Lexemes

variable {line : Nat} {whole : List Char} {modes : Modes}

theorem modes_pass (hline : '\n' ∉ text) : (s.pass text).modes = s.modes := by
  rw [Scanner.pass_of_not_mem s hline]

theorem not_mem_singleton (hd : d ≠ '\n') : '\n' ∉ [d] :=
  fun hmem => hd (List.mem_singleton.1 hmem).symm

theorem Along.scan_comment (h : Along s [';'] c) :
    Brings s registry line [';'] (.comment, c.rest.takeWhile (· != '\n')) c.scanComment := by
  obtain ⟨stop, hstop, hline, hends⟩ := h.advance (by simp) (fun _ d => d != '\n')
    (fun d _ => d != '\n') (·.takeWhile (· != '\n')) List.takeWhile_nil
    (fun _ _ => List.takeWhile_cons) (fun _ _ _ _ _ => rfl) (fun _ => rfl) []
  obtain ⟨hcomment, hstands⟩ := hstop.settle_back hline hends
  unfold scanComment
  generalize c.advance _ _ = r at hcomment hstands
  obtain ⟨comment, behind, stopped⟩ := r
  obtain rfl : comment = _ := hcomment
  exact hstands.deliver

/-- A name without quotes, in the mode that is set. -/
theorem Along.scan_name (h : Along s text c) (hline : '\n' ∉ text) (hhead : text.head? = some d)
    (hd : d ≠ '"') (hrun : text ++ Lexeme.nameRun s.modes.tolerantNames c.rest = name)
    (registry : Registry) (tolerantAfter : Option Bool) :
    Matches (c.scanName registry text tolerantAfter) ((s.pass name).deliverWord registry
      (String.ofList name) ((s.pass name).location name) tolerantAfter) := by
  have hnewline (tolerant : Bool) (rest : List Char) :
      Lexeme.continuesName tolerant '\n' rest = false :=
    Lexeme.continues_name_of_is_edge (by decide) tolerant rest
  have hgoes (text : List Char) (d : Char) (next : Cursor) (hline : '\n' ∉ text)
      (hnext : Along s (text ++ [d]) next) :
      Lexeme.continuesName next.modes.tolerantNames d next.rest =
        Lexeme.continuesName s.modes.tolerantNames d next.rest := by
    by_cases hd : d = '\n'
    · rw [hd, hnewline, hnewline]
    · rw [hnext.modes_eq, modes_pass (by simp [hline, Ne.symm hd])]
  obtain ⟨stop, hstop, hline, hends⟩ := h.advance hline _ _
    (Lexeme.nameRun s.modes.tolerantNames) rfl (fun _ _ => rfl) hgoes (hnewline _) text
  rw [hrun] at hstop hline hends
  obtain ⟨hname, hstands⟩ := hstop.settle_back hline hends
  unfold scanName
  generalize c.advance _ _ = r at hname hstands
  obtain ⟨name, behind, stopped⟩ := r
  obtain rfl : name = _ := hname
  refine hstands.deliver_name ?_
  rw [← hrun, List.head?_append, hhead]
  exact fun hquote => hd (Option.some.inj hquote)

/-- Modes that are changed on a line are changed for the lexeme. -/
theorem Along.map_modes (h : Along s text c) (hline : '\n' ∉ text) (change : Modes → Modes) :
    Along (s.mapModes change) text (c.mapModes change) := by
  have hmodes : change c.modes = ((s.mapModes change).pass text).modes := by
    rw [h.modes_eq, modes_pass hline, modes_pass hline]
    rfl
  refine ⟨⟨h.rest, ?_, Or.inr hmodes, h.pending, h.lineStart⟩, h.split, hmodes⟩
  rw [Cursor.mapModes, h.place, Scanner.pass_of_not_mem _ hline, Scanner.pass_of_not_mem _ hline]
  rfl

theorem Along.scan_signed (h : Along s [d] c) (hd : d ≠ '\n') (hquote : d ≠ '"') :
    Brings s registry line [d] (.signedWord, Lexeme.nameRun true c.rest)
      (c.scanSigned registry d) := by
  have hline := not_mem_singleton hd
  have hrun : '\n' ∉ [d] ++ Lexeme.nameRun true c.rest := by
    intro hmem
    rcases List.mem_append.1 hmem with hmem | hmem
    · exact hline hmem
    · exact (Lexeme.is_plain_of_mem_name_run hmem).ne_newline rfl
  unfold Brings
  dsimp only
  generalize hname : [d] ++ Lexeme.nameRun true c.rest = name at hrun ⊢
  have hmatches := (h.map_modes hline fun modes => { modes with tolerantNames := true }).scan_name
    hline rfl hquote hname registry (some s.modes.tolerantNames)
  rw [Scanner.pass_of_not_mem _ hrun] at hmatches
  rw [scanSigned, h.modes_eq, modes_pass hline, Scanner.settle, Scanner.pass_of_not_mem _ hrun]
  exact hmatches

/-- A number behind its point. -/
theorem Along.scan_float (h : Along s text c) (hline : '\n' ∉ text) :
    Brings s registry line text (Lexeme.readFraction whole c.rest) (c.scanFloat whole) := by
  obtain ⟨stop, hstop, hline, hends⟩ := h.advance hline
    (fun _ d => d.isDigit || Text.isAlphabetic d || d == '_')
    (fun d _ => d.isDigit || Text.isAlphabetic d || d == '_')
    (·.takeWhile fun d => d.isDigit || Text.isAlphabetic d || d == '_') List.takeWhile_nil
    (fun _ _ => List.takeWhile_cons) (fun _ _ _ _ _ => rfl) (fun _ => by decide) []
  obtain ⟨hrun, hstands⟩ := hstop.settle_back hline hends
  unfold Brings scanFloat Lexeme.readFraction
  generalize c.advance _ _ = r at hrun hstands
  obtain ⟨run, behind, stopped⟩ := r
  obtain rfl : run = _ := hrun
  dsimp only [List.nil_append]
  split
  · exact ⟨by rw [Scanner.settle, hstands.place], rfl, hstands.clear⟩
  · exact hstands.deliver

/-- A number behind its first digit. -/
theorem Along.scan_int (h : Along s [d] c) (hd : d ≠ '\n') (hquote : d ≠ '"') :
    Brings s registry line [d] (Lexeme.readNumber s.modes.tolerantNames d c.rest)
      (c.scanInt registry d) := by
  obtain ⟨stop, hstop, hline, hends⟩ := h.advance (not_mem_singleton hd) (fun _ d => d.isDigit)
    (fun d _ => d.isDigit) (·.takeWhile Char.isDigit) List.takeWhile_nil
    (fun _ _ => List.takeWhile_cons) (fun _ _ _ _ _ => rfl) (fun _ => rfl) [d]
  have hbehind : c.rest.dropWhile Char.isDigit = stop.rest := by
    have hsplit := hstop.split
    rw [h.split, List.append_assoc] at hsplit
    have hrest := List.append_cancel_left hsplit
    nth_rewrite 1 [← List.takeWhile_append_dropWhile (p := Char.isDigit) (l := c.rest)] at hrest
    exact List.append_cancel_left hrest
  unfold scanInt Lexeme.readNumber
  rw [hbehind]
  generalize c.advance _ _ = r at hends
  cases hends with
  | ended hrest =>
      rw [hrest]
      exact (hstop.stands hline).deliver
  | @tooFar e next hget hrest =>
      obtain ⟨_, hget', -, hnext, hunget⟩ := hstop.get hrest
      cases hget.symm.trans hget'
      rw [hrest]
      dsimp only
      have hhead : (e :: next.rest).head?.any Lexeme.isNameChar = Lexeme.isNameChar e := rfl
      rw [hhead]
      by_cases hname : Lexeme.isNameChar e = true
      · -- The digits are the first characters of a name.
        have he : '\n' ≠ e := by
          rintro rfl
          exact absurd hname (by decide)
        have hrun : Lexeme.nameRun s.modes.tolerantNames (e :: next.rest) =
            e :: Lexeme.nameRun s.modes.tolerantNames next.rest := by
          rw [Lexeme.nameRun, if_pos (by rw [Lexeme.continuesName, hname]; rfl)]
        rw [if_pos hname, if_pos hname, hrun]
        exact hnext.scan_name (by simpa [he] using hline) rfl hquote (by simp) registry none
      · rw [if_neg hname, if_neg hname]
        by_cases hpoint : e = '.'
        · subst hpoint
          rw [if_pos rfl]
          have hmatches : Brings s registry line _ _
              (next.scanFloat (d :: c.rest.takeWhile Char.isDigit)) :=
            hnext.scan_float (by simpa using hline)
          unfold Brings at hmatches ⊢
          simpa only [List.append_assoc, List.cons_append, List.nil_append] using hmatches
        · rw [if_neg hpoint]
          rw [Scanner.last_line_of_not_mem hline] at hunget
          split
          next heq => exact absurd (List.cons.inj heq).1 hpoint
          · exact hunget.deliver

/-- Blanks at the end of a comparison are got, but they do not belong to its spelling. -/
theorem Along.scan_comparison (h : Along s [d] c) (hd : d ≠ '\n') :
    Brings s registry line [d] (Lexeme.readComparison d c.rest) (c.scanComparison d) := by
  obtain ⟨hrun, halong, hline⟩ := h.peek_while (not_mem_singleton hd)
    (fun d => d == '=' || d == '!' || d == '<' || d == '>' || Lexeme.isInnerBlank d)
    (by decide) []
  have htrimmed := (halong.stands hline).trim
  unfold scanComparison Lexeme.readComparison
  generalize c.peekWhile _ _ = r at hrun htrimmed
  obtain ⟨run, behind⟩ := r
  obtain rfl : run = _ := hrun
  dsimp only [List.nil_append] at htrimmed ⊢
  cases Lexeme.comparisonOf? _ with
  | none => exact ⟨by rw [Scanner.settle, htrimmed.place], rfl, htrimmed.clear⟩
  | some found =>
      rw [htrimmed.place]
      exact htrimmed.deliver

/-! ### Quoted texts -/

theorem newline_reports_concat (line : Nat) (text : List Char) (d : Char) :
    Scanner.newlineReports line (text ++ [d]) = Scanner.newlineReports line text ++
      if d = '\n' then [.warning .newlineInString ⟨line + text.count '\n' + 1, 0, ""⟩] else [] := by
  unfold Scanner.newlineReports
  split
  next hd =>
    rw [hd, List.count_append, List.count_singleton_self, List.range_succ, List.map_append]
    rfl
  next hd =>
    rw [List.count_append, List.count_eq_zero.2 (not_mem_singleton hd), Nat.add_zero,
      List.append_nil]

/-- The end of a line leaves it open whether quoted texts may run over it. -/
theorem ignore_newline_pass : (s.pass text).modes.ignoreNewline = s.modes.ignoreNewline := by
  unfold Scanner.pass
  dsimp only
  split <;> rfl

/-- A quoted text goes up to the first character that does not belong inside. -/
theorem read_quoted_append {ignoreNewline : Bool} {body : List Char}
    (hbody : ∀ x ∈ body, (x != '"' && (ignoreNewline || x != '\n')) = true)
    (hd : (d != '"' && (ignoreNewline || d != '\n')) = false) :
    Lexeme.readQuoted ignoreNewline (body ++ d :: rest) =
      if d = '"' then (.quoted body true, body ++ ['"'])
      else (if Lexeme.isBlankLine body then .strayQuote else .openQuote, body) := by
  unfold Lexeme.readQuoted
  dsimp only
  rw [List.takeWhile_append_of_pos hbody, List.dropWhile_append_of_pos hbody, List.takeWhile_cons,
    List.dropWhile_cons, hd]
  by_cases hquote : d = '"'
  · subst hquote
    simp
  · obtain ⟨-, rfl⟩ : ignoreNewline = false ∧ d = '\n' := by simpa [hquote] using hd
    simp

/-- A quoted text behind its first characters. -/
theorem Along.scan_quoted {body : List Char} (h : Along s ('"' :: body) c)
    (hbody : ∀ x ∈ body, (x != '"' && (s.modes.ignoreNewline || x != '\n')) = true) :
    Brings s registry s.line ['"'] (Lexeme.readQuoted s.modes.ignoreNewline (body ++ c.rest))
      (c.scanQuoted registry ('"' :: body) (Scanner.newlineReports s.line ('"' :: body))) := by
  induction hrest : c.rest generalizing c body with
  | nil =>
      -- The text ends in front of a closing quote.
      have hread : Lexeme.readQuoted s.modes.ignoreNewline body = (.quoted body false, body) := by
        unfold Lexeme.readQuoted
        simp only [List.takeWhile_eq_self_iff.2 hbody, List.dropWhile_eq_nil_iff.2 hbody]
      have hopen : ¬(2 ≤ ('"' :: body).length ∧ ('"' :: body).head? = some '"' ∧
          ('"' :: body).getLast? = some '"') := by
        rintro ⟨hlength, -, hlast⟩
        have hne : body ≠ [] := by
          rintro rfl
          simp at hlength
        rw [List.getLast?_cons_of_ne_nil hne] at hlast
        exact absurd (hbody '"' (List.mem_of_getLast? hlast)) (by simp)
      rw [scanQuoted, get?_of_nil hrest, List.append_nil, hread, deliverName,
        if_neg hopen]
      exact h.toStands.deliver_word
  | cons d rest ih =>
      obtain ⟨next, hget, hnext, halong, hunget⟩ := h.get hrest
      have hignore : next.modes.ignoreNewline = s.modes.ignoreNewline := by
        rw [halong.modes_eq, ignore_newline_pass]
      have hreports := newline_reports_concat s.line ('"' :: body) d
      have hgo (hd : (d != '"' && (s.modes.ignoreNewline || d != '\n')) = true) :=
        @ih next (body ++ [d]) halong (fun x hx => by
          rcases List.mem_append.1 hx with hx | hx
          · exact hbody x hx
          · rwa [List.mem_singleton.1 hx]) hnext
      rw [List.append_assoc, List.singleton_append, ← List.cons_append, hreports] at hgo
      rw [scanQuoted, hget]
      dsimp only
      rw [hignore]
      by_cases hquote : d = '"'
      · subst hquote
        have hclosed : 2 ≤ ('"' :: body ++ ['"']).length ∧
            ('"' :: body ++ ['"']).head? = some '"' ∧
            ('"' :: body ++ ['"']).getLast? = some '"' :=
          ⟨by simp, rfl, List.getLast?_concat⟩
        have hinside : ('"' :: body ++ ['"']).tail.dropLast = body := List.dropLast_concat
        rw [if_neg (by decide), List.append_nil] at hreports
        rw [read_quoted_append hbody (by simp), if_pos rfl, if_pos rfl, deliverName,
          if_pos hclosed, hinside, halong.modes_eq, ← hreports, Brings]
        show Matches _ ((s.pass ('"' :: body ++ ['"'])).settle registry s.line _ _)
        unfold Scanner.settle
        dsimp only
        rw [Bool.true_and]
        split
        · exact halong.toStands.deliver
        · exact halong.toStands.deliver_word
      rw [if_neg hquote]
      by_cases hnewline : d = '\n'
      · subst hnewline
        rw [if_pos rfl] at hgo ⊢
        cases hcase : s.modes.ignoreNewline with
        | true =>
            have hplace : next.place = ⟨s.line + List.count '\n' ('"' :: body) + 1, 0, ""⟩ := by
              rw [halong.place, Scanner.location_pass_concat, if_pos rfl]
              rfl
            rw [hplace, if_pos rfl, ← hcase]
            exact hgo (by simp [hcase])
        | false =>
            -- The text is cut off, and the cursor goes back in front of the end of the line.
            have hline : '\n' ∉ '"' :: body := by
              intro hmem
              rcases List.mem_cons.1 hmem with hmem | hmem
              · exact absurd hmem (by decide)
              · exact absurd (hbody _ hmem) (by simp [hcase])
            have hnone : Scanner.newlineReports s.line ('"' :: body) = [] := by
              rw [Scanner.newlineReports, List.count_eq_zero.2 hline]
              rfl
            rw [Scanner.last_line_of_not_mem hline] at hunget
            rw [hcase] at hbody
            rw [read_quoted_append hbody (by simp), hnone, hunget.place, if_neg (by decide),
              if_neg Bool.false_ne_true, List.tail_cons]
            split
            · exact ⟨rfl, rfl, hunget.clear⟩
            · exact ⟨rfl, rfl, hunget.clear⟩
      · rw [if_neg hnewline] at hgo ⊢
        rw [List.append_nil] at hgo
        exact hgo (by simp [hquote, hnewline])

/-! ### Special characters -/

theorem Brings.ite {p : Prop} [Decidable p] {found found' : Lexeme × List Char} {step step' : Step}
    (hpos : p → Brings s registry line text found step)
    (hneg : ¬p → Brings s registry line text found' step') :
    Brings s registry line text (if p then found else found') (if p then step else step') := by
  by_cases hp : p
  · rw [if_pos hp, if_pos hp]
    exact hpos hp
  · rw [if_neg hp, if_neg hp]
    exact hneg hp

theorem Along.scan_sign (h : Along s text c) (hline : '\n' ∉ text) {special : Special}
    (hsimple : special.isSimple = true) :
    Matches (c.deliver (.special special)) ((s.pass text).settle registry line text
      (.sign special)) := by
  cases special with
  | newline | comparison => cases hsimple
  | _ => exact (h.stands hline).deliver

/-- A special character, in the modes from in front of it. -/
theorem Along.scan_special (h : Along s [d] c) (hd : d ≠ '\n') (hquote : d ≠ '"')
    (hblank : Lexeme.isInnerBlank d = false)
    (hignore : modes.ignoreSpecial = s.modes.ignoreSpecial) :
    Brings s registry line [d] (Lexeme.readSpecial modes d c.rest)
      (c.scanSpecial registry modes.expectName d) := by
  have hline := not_mem_singleton hd
  have hsign (special : Special) (hsimple : special.isSimple = true) :
      Brings s registry line [d] (.sign special, []) (c.deliver (.special special)) :=
    h.scan_sign hline hsimple
  have hsigned : Brings s registry line [d] (.signedWord, Lexeme.nameRun true c.rest)
      (c.scanSigned registry d) :=
    h.scan_signed hd hquote
  unfold Lexeme.readSpecial scanSpecial
  rw [if_neg hd, if_neg hd, hignore, h.modes_eq, modes_pass hline]
  refine .ite (fun _ => ?_) fun _ => .ite (fun _ => hsign _ rfl) fun _ =>
    .ite (fun _ => hsign _ rfl) fun _ => .ite (fun _ => ?_) fun _ => .ite (fun _ => hsign _ rfl)
    fun _ => .ite (fun _ => ?_) fun _ => .ite (fun _ => h.scan_comparison hd) fun _ =>
    .ite (fun _ => hsign _ rfl) fun _ => .ite (fun _ => hsign _ rfl) fun _ =>
    .ite (fun _ => hsign _ rfl) fun _ => ?_
  · -- Stray characters are passed over.
    obtain ⟨-, halong, hstrays⟩ := h.peek_while hline (!Lexeme.endsStrays ·) (by decide) []
    have hstands := halong.stands hstrays
    exact ⟨rfl, congrArg (fun place => [Report.warning .straySpecial place]) hstands.place,
      hstands.clear⟩
  · exact .ite (fun _ => h.scan_float hline) fun _ =>
      .ite (fun _ => hsigned) fun _ => hsign _ rfl
  · refine .ite (fun harrow => ?_) fun _ => .ite (fun _ => hsigned) fun _ => hsign _ rfl
    obtain ⟨rest, hrest⟩ := List.head?_eq_some_iff.1 harrow
    obtain ⟨next, hget, -, halong, -⟩ := h.get hrest
    rw [hget]
    exact halong.scan_sign (by simp [Ne.symm hd]) rfl
  · have htrim : Scanner.trimEnd [d] = [d] := by
      simp [Scanner.trimEnd, hblank]
    have hstands := h.stands hline
    refine ⟨?_, rfl, hstands.clear⟩
    show Item.malformed _ = Item.malformed (Scanner.location _ (Scanner.trimEnd [d]))
    rw [htrim, hstands.place]
    rfl

end Lexemes

/-! ### One pull -/

theorem Follows.along (h : Follows c s) (hmodes : c.modes = s.modes) : Along s [] c :=
  ⟨⟨h.rest, h.place, Or.inr hmodes, h.pending, h.lineStart⟩, h.rest.symm, hmodes⟩

theorem pull_of_get (hpending : c.pending = none) (hget : c.get? = some (d, next)) :
    c.pull registry = next.scan registry d := by
  unfold pull
  rw [hpending, hget]

/-- At the end of a line the modes are the same again. -/
theorem Follows.pull_newline (h : Follows c s) (hpending : s.pending = none)
    (hrest : s.rest = '\n' :: rest) (registry : Registry) :
    Matches (c.pull registry) (s.pull registry) := by
  obtain ⟨next, hget, hnext, hnextPending, hlineStart, hplace, hmodes, -⟩ :=
    get?_of_rest (h.rest.trans hrest)
  rw [h.place] at hplace
  rw [pull_of_get (h.pending.trans hpending) hget, Scanner.pull_newline hpending hrest]
  refine ⟨?_, rfl, hnext, ?_, Or.inr ?_, hnextPending.trans h.pending, rfl⟩
  · show Item.token _ { next.place with literal := "<newline>" } none = _
    rw [hplace]
    rfl
  · show { next.place with literal := "" } = _
    rw [hplace]
    rfl
  · show { (next.modes.start .special) with ignoreNewline := false } = _
    rw [hmodes]
    rfl

/-- What any other character starts. -/
theorem Along.scan (h : Along (s.mapModes (·.start (Start.of d))) [d]
      (c.mapModes (·.start (Start.of d)))) (hd : d ≠ '\n') (hmodes : c.modes = s.modes) :
    Brings (s.mapModes (·.start (Start.of d))) registry s.line [d]
      (Lexeme.read s.modes d c.rest) (c.scan registry d) := by
  have hline := not_mem_singleton hd
  unfold Lexeme.read Cursor.scan
  dsimp only
  rw [hmodes]
  cases hstart : Start.of d with
  | comment =>
      obtain rfl := Start.eq_of_comment hstart
      exact h.scan_comment
  | blank =>
      rw [hstart] at h
      exact ⟨rfl, rfl, h.clear⟩
  | word =>
      rw [hstart] at h
      refine .ite (fun hquote => ?_) fun hquote => h.scan_name hline rfl hquote rfl registry none
      subst hquote
      exact h.scan_quoted (by simp)
  | digit =>
      have hquote : d ≠ '"' := by
        rintro rfl
        exact absurd hstart (by decide)
      rw [hstart] at h
      exact .ite (fun _ => h.scan_name hline rfl hquote rfl registry none) fun _ =>
        h.scan_int hd hquote
  | special =>
      have hquote : d ≠ '"' := by
        rintro rfl
        exact absurd hstart (by decide)
      have hblank : Lexeme.isInnerBlank d = false := by
        unfold Start.of at hstart
        grind [Lexeme.isInnerBlank]
      rw [hstart] at h
      exact h.scan_special hd hquote hblank rfl

/-- The cursor brings what the scanner brings, and follows it on. -/
theorem Follows.pull (h : Follows c s) (registry : Registry) :
    Matches (c.pull registry) (s.pull registry) := by
  cases hpending : s.pending with
  | some waiting =>
      unfold Cursor.pull Scanner.pull
      rw [h.pending, hpending]
      exact ⟨rfl, rfl, h.rest, h.place, h.modes, rfl, rfl⟩
  | none =>
      cases hrest : s.rest with
      | nil =>
          unfold Cursor.pull Scanner.pull
          rw [h.pending, hpending, hrest, get?_of_nil (h.rest.trans hrest)]
          exact ⟨rfl, rfl, h⟩
      | cons d rest =>
          by_cases hd : d = '\n'
          · subst hd
            exact h.pull_newline hpending hrest registry
          have hmodes : c.modes = s.modes := by
            refine h.modes.resolve_left fun hhead => hd ?_
            rw [h.rest, hrest] at hhead
            exact Option.some.inj hhead
          obtain ⟨next, hget, hnext, halong, -⟩ := (h.along hmodes).get (h.rest.trans hrest)
          have hnextModes : next.modes = s.modes := by
            rw [halong.modes_eq, List.nil_append, modes_pass (not_mem_singleton hd)]
          rw [pull_of_get (h.pending.trans hpending) hget, Scanner.pull_eq_settle hpending hrest,
            ← hnext]
          exact (halong.map_modes (not_mem_singleton hd) _).scan hd hnextModes

/-! ### Whole runs -/

/-- The cursor after one use. -/
def use (registry : Registry) (c : Cursor) : Scanner.Use → Cursor
  | .pull => (c.pull registry).cursor
  | .mapModes change => c.mapModes change
  | .putBack token place => { c with pending := some (token, place) }

/-- The cursor after a run of uses. -/
def after (c : Cursor) (registry : Registry) (uses : List Scanner.Use) : Cursor :=
  uses.foldl (use registry) c

theorem Follows.use (h : Follows c s) (registry : Registry) (use : Scanner.Use) :
    Follows (c.use registry use) (s.use registry use) := by
  cases use with
  | pull => exact (h.pull registry).follows
  | mapModes change => exact h.map_modes change
  | putBack token place => exact ⟨h.rest, h.place, h.modes, rfl, h.lineStart⟩

/-- Used in the same way, the cursor follows the scanner all along. -/
theorem Follows.after (h : Follows c s) (registry : Registry) (uses : List Scanner.Use) :
    Follows (c.after registry uses) (s.after registry uses) := by
  induction uses generalizing c s with
  | nil => exact h
  | cons use uses ih => exact ih (h.use registry use)

theorem follows_of_text (source : String) : Follows (ofText source) (Scanner.ofText source) :=
  ⟨rfl, rfl, Or.inr rfl, rfl, rfl⟩

/-- Every token that comes from the text stands at the end of its part of the text and is spelled as
that says, however the scanner has been used before. This is the place that a cursor has kept on its
way, which is left there with an empty spelling. -/
theorem location_exact (registry : Registry) (source : String) (uses : List Scanner.Use)
    (hpending : ((Scanner.ofText source).after registry uses).pending = none)
    (hitem : (((Scanner.ofText source).after registry uses).pull registry).item =
      .token token place tolerantAfter) :
    let c := (ofText source).after registry uses
    let step := c.pull registry
    step.item = .token token place tolerantAfter ∧
      step.reports = (((Scanner.ofText source).after registry uses).pull registry).reports ∧
      step.cursor.place = ⟨place.line, place.column, ""⟩ ∧
      ∃ before text behind, source.toList = before ++ text ++ behind ∧
        c.rest = text ++ behind ∧ step.cursor.rest = behind ∧
        token.PlacedAt before text place := by
  have hfollows := (follows_of_text source).after registry uses
  have hmatches := hfollows.pull registry
  obtain ⟨before, htracks⟩ := (Scanner.tracks_of_text source).after registry uses
  obtain ⟨text, behind, hsource, hrest, hbehind, hline, hcolumn, hstands⟩ :=
    htracks.exact hpending hitem
  refine ⟨hmatches.item.trans hitem, hmatches.reports, ?_, before, text, behind, hsource,
    hfollows.rest.trans hrest, hmatches.follows.rest.trans hbehind, hstands⟩
  rw [hmatches.follows.place, Scanner.location, hline, hcolumn]

/-- A quoted name over two lines stands on the second of them, and only what stands there is its
spelling. -/
theorem location_exact_quoted :
    let change : Modes → Modes := fun modes =>
      { modes with ignoreNewline := true, strictKeywords := true }
    let c := (ofText "\"a\nb\" x").after {} [.mapModes change]
    let s := (Scanner.ofText "\"a\nb\" x").after {} [.mapModes change]
    let place : Location := ⟨1, 2, "b\""⟩
    s.pending = none ∧ (s.pull {}).item = .token (.name "a\nb") place none ∧
      (c.pull {}).item = .token (.name "a\nb") place none ∧
      (c.pull {}).reports = (s.pull {}).reports ∧
      (c.pull {}).cursor.place = ⟨1, 2, ""⟩ ∧
      ∃ before text behind, "\"a\nb\" x".toList = before ++ text ++ behind ∧
        c.rest = text ++ behind ∧ (c.pull {}).cursor.rest = behind ∧
        (Token.name "a\nb").PlacedAt before text place :=
  ⟨rfl, rfl, location_exact {} _ [.mapModes _] rfl (rfl : _ = Item.token _ _ none)⟩

end Cursor

end QuestScript
