import QuestScript.Proofs.Lines
import QuestScript.Proofs.Position

/-!
# Places and line ends

A scanner keeps its line and column while it moves, and cuts the spelling of a token out of the
text on the way. `Scanner.Tracks` says what line and column have to be in terms of the text alone,
and every way to use a scanner keeps it (`Scanner.Tracks.after`).

The main statements are `Scanner.Tracks.exact`, the place and the spelling of every token that
comes from the text, and `Scanner.newlines_conserved`: read to its end, a text brings one token for
each of its line ends, apart from those inside quoted names and keywords.
-/

namespace QuestScript

/-! ### The last line of a text -/

/-- The line is what stands behind the last line end of the text. -/
def EndsIn (text line : List Char) : Prop :=
  '\n' ∉ line ∧ (text = line ∨ ∃ front, text = front ++ '\n' :: line)

namespace EndsIn

variable {text line more : List Char}

theorem refl (h : '\n' ∉ text) : EndsIn text text :=
  ⟨h, Or.inl rfl⟩

/-- A text without a line end makes the last line longer. -/
theorem append (h : EndsIn text line) (hmore : '\n' ∉ more) :
    EndsIn (text ++ more) (line ++ more) := by
  obtain ⟨hline, htext⟩ := h
  refine ⟨by simp [hline, hmore], ?_⟩
  rcases htext with rfl | ⟨front, rfl⟩
  · exact Or.inl rfl
  · exact Or.inr ⟨front, by rw [List.append_assoc, List.cons_append]⟩

/-- A text with a line end brings its own last line. -/
theorem append_crossed (text : List Char) (h : EndsIn more line) (hmore : '\n' ∈ more) :
    EndsIn (text ++ more) line := by
  obtain ⟨hline, rfl | ⟨front, rfl⟩⟩ := h
  · exact absurd hmore hline
  · exact ⟨hline, Or.inr ⟨text ++ front, by rw [List.append_assoc]⟩⟩

theorem last_line (text : List Char) : EndsIn text (Scanner.lastLine text) := by
  have hsplit := List.takeWhile_append_dropWhile (p := (· != '\n')) (l := text.reverse)
  have hhead := List.head?_dropWhile_not (· != '\n') text.reverse
  have hline : '\n' ∉ text.reverse.takeWhile (· != '\n') := fun h =>
    absurd (List.all_eq_true.1 List.all_takeWhile _ h) (by decide)
  unfold Scanner.lastLine
  generalize text.reverse.takeWhile (· != '\n') = line at hsplit hline
  generalize text.reverse.dropWhile (· != '\n') = front at hsplit hhead
  have htext : text = front.reverse ++ line.reverse := by
    rw [← List.reverse_append, hsplit, List.reverse_reverse]
  refine ⟨fun h => hline (List.mem_reverse.1 h), ?_⟩
  cases front with
  | nil => exact Or.inl htext
  | cons c front =>
      simp only [List.head?_cons, bne_eq_false_iff_eq] at hhead
      subst hhead
      exact Or.inr ⟨front.reverse, by simpa using htext⟩

end EndsIn

/-! ### What a lexeme spans -/

namespace Lexeme

variable {modes : Modes} {tolerant : Bool} {c : Char} {whole tail rest : List Char}

/-- The line ends in the text of a lexeme: the sign for a line end is one, a quoted text may hold
some, and nothing else holds any. -/
def Spans (text : List Char) : Lexeme → Prop
  | .sign .newline => text = ['\n']
  | .sign (.comparison _) => False
  | .quoted _ _ => text.head? = some '"'
  | _ => '\n' ∉ text

/-- All but line ends and quoted texts stay on their line. -/
theorem Spans.on_line {text : List Char} {lexeme : Lexeme} (h : lexeme.Spans text)
    (hquoted : ¬lexeme.IsQuoted) (htext : text ≠ ['\n']) :
    '\n' ∉ text ∧ lexeme ≠ .sign .newline := by
  cases lexeme with
  | quoted => exact absurd trivial hquoted
  | sign special =>
      cases special with
      | newline => exact absurd h htext
      | comparison => exact h.elim
      | _ => exact ⟨h, by rintro ⟨⟩⟩
  | _ => exact ⟨h, by rintro ⟨⟩⟩

theorem spans_read_fraction (hline : '\n' ∉ tail) : Spans tail (readFraction whole rest).1 := by
  unfold readFraction
  dsimp only
  split <;> exact hline

theorem spans_read_number (hline : '\n' ∉ tail) : Spans tail (readNumber tolerant c rest).1 := by
  unfold readNumber
  dsimp only
  split
  · exact hline
  · split
    · exact spans_read_fraction hline
    · exact hline

theorem spans_read_comparison (hline : '\n' ∉ tail) : Spans tail (readComparison c rest).1 := by
  unfold readComparison
  dsimp only
  split <;> exact hline

/-- A quoted text that is not closed ends in front of the line end that cuts it off. -/
theorem spans_read_quoted (ignoreNewline : Bool) (rest : List Char) :
    Spans ('"' :: (readQuoted ignoreNewline rest).2) (readQuoted ignoreNewline rest).1 := by
  have hhead := List.head?_dropWhile_not (fun c => c != '"' && (ignoreNewline || c != '\n')) rest
  unfold readQuoted
  dsimp only
  split
  · exact rfl
  next hdrop =>
    rw [hdrop] at hhead
    have hignore : ignoreNewline = false := by simpa using hhead
    have hline : '\n' ∉
        '"' :: rest.takeWhile fun c => c != '"' && (ignoreNewline || c != '\n') := by
      intro hmem
      rcases List.mem_cons.1 hmem with h | hmem
      · exact absurd h (by decide)
      · have hinside := List.all_eq_true.1 List.all_takeWhile _ hmem
        simp [hignore] at hinside
    dsimp only
    split <;> exact hline
  · exact rfl

theorem spans_read_special (hc : c ≠ '\n') (hline : '\n' ∉ tail) :
    Spans tail (readSpecial modes c rest).1 := by
  refine read_special_cases (P := fun found => Spans tail found.1) modes c rest
    (fun h => absurd h hc) hline (fun special hsimple => ?_) (fun _ => hline)
    (spans_read_fraction hline) (fun _ => hline) (spans_read_comparison hline) hline
  cases special with
  | newline | comparison => cases hsimple
  | _ => exact hline

theorem spans_read (modes : Modes) (c : Char) (rest : List Char) :
    Spans (c :: (read modes c rest).2) (read modes c rest).1 := by
  by_cases hnewline : c = '\n'
  · subst hnewline
    exact rfl
  by_cases hquote : c = '"'
  · subst hquote
    exact spans_read_quoted _ _
  -- Neither a line end nor a quote: the lexeme stays on its line.
  have hline : '\n' ∉ c :: (read modes c rest).2 := by
    obtain ⟨hline, -⟩ | ⟨hquote', -⟩ := read_cases modes rest hnewline
    · exact hline
    · exact absurd hquote' hquote
  generalize c :: (read modes c rest).2 = text at hline
  unfold read
  split
  · exact hline
  · exact hline
  · rw [if_neg hquote]
    exact hline
  · split
    · exact hline
    · exact spans_read_number hline
  · exact spans_read_special hnewline hline

end Lexeme

/-! ### Spellings -/

/-- How the spelling that comes with a token is cut out of its text: a comparison loses the blanks
at its end, the end of a line has a spelling of its own, and all else is spelled as it stands on its
last line. -/
def Token.Spelled (token : Token) (text : List Char) (literal : String) : Prop :=
  match token with
  | .special .newline => text = ['\n'] ∧ literal = "<newline>"
  | .special (.comparison _) => ∃ blanks, text = literal.toList ++ blanks ∧
      (∀ c ∈ blanks, c = ' ' ∨ c = '\t') ∧ ∀ c ∈ literal.toList.getLast?, c ≠ ' ' ∧ c ≠ '\t'
  | _ => EndsIn text literal.toList

/-- The place of a token whose part of the text stands behind the text `before`. The part starts
with the first character of the token, and the place is where it ends: the line is the number of
line ends up to there, the column the number of characters behind the last of them. Only the end of
a line and quoted texts hold line ends. -/
structure Token.PlacedAt (before text : List Char) (token : Token) (place : Location) : Prop where
  start : ∃ c ∈ text.head?, Start.of c ≠ .blank
  line : place.line = (before ++ text).count '\n'
  column : ∃ last, EndsIn (before ++ text) last ∧ place.column = last.length
  spelled : token.Spelled text place.literal
  newline : token = .special .newline → place = ⟨before.count '\n' + 1, 0, "<newline>"⟩
  crossed : '\n' ∈ text → token = .special .newline ∨ text.head? = some '"'

/-- A token stands in the given line and column and is spelled as its text says. -/
def Item.Stands (line column : Nat) (text : List Char) : Item → Prop
  | .token delivered place _ =>
    place.line = line ∧ place.column = column ∧ delivered.Spelled text place.literal
  | _ => True

namespace Scanner

variable {s : Scanner} {registry : Registry} {source : String} {c : Char}
  {text rest before behind : List Char} {token : Token} {place : Location}
  {tolerantAfter : Option Bool} {line : Nat} {lexeme : Lexeme}

theorem is_inner_blank_iff : Lexeme.isInnerBlank c = true ↔ c = ' ' ∨ c = '\t' := by
  simp [Lexeme.isInnerBlank]

/-- Only blanks are lost at the end, and all of them. -/
theorem trim_end_spec (text : List Char) :
    ∃ blanks, text = trimEnd text ++ blanks ∧ (∀ c ∈ blanks, c = ' ' ∨ c = '\t') ∧
      ∀ c ∈ (trimEnd text).getLast?, c ≠ ' ' ∧ c ≠ '\t' := by
  have hsplit := List.takeWhile_append_dropWhile (p := Lexeme.isInnerBlank) (l := text.reverse)
  refine ⟨(text.reverse.takeWhile Lexeme.isInnerBlank).reverse, ?_, ?_, ?_⟩
  · rw [trimEnd, ← List.reverse_append, hsplit, List.reverse_reverse]
  · intro c hc
    exact is_inner_blank_iff.1 (List.all_eq_true.1 List.all_takeWhile _ (List.mem_reverse.1 hc))
  · intro c hc
    rw [trimEnd, List.getLast?_reverse] at hc
    have hhead := List.head?_dropWhile_not Lexeme.isInnerBlank text.reverse
    rw [Option.mem_def.1 hc] at hhead
    exact not_or.1 fun h => absurd (is_inner_blank_iff.2 h) (by simp [hhead])

/-- A word brings a name or a keyword. -/
theorem item_deliver_word (s : Scanner) (registry : Registry) (name : String) (place : Location)
    (tolerantAfter : Option Bool) (reports : List Report) :
    ∃ token, (token = .name name ∨ ∃ word, token = .keyword word) ∧
      (s.deliverWord registry name place tolerantAfter reports).item =
        .token token place tolerantAfter := by
  unfold deliverWord
  split
  · exact ⟨_, Or.inl rfl, rfl⟩
  next word _ => exact ⟨.keyword word, Or.inr ⟨word, rfl⟩, rfl⟩

/-- What a quoted text brings. -/
theorem item_settle_quoted (s : Scanner) (registry : Registry) (line : Nat)
    (text body : List Char) (closed : Bool) :
    ∃ token, (token = .name (String.ofList (if closed then body else text)) ∨
        ∃ word, token = .keyword word) ∧
      (s.settle registry line text (.quoted body closed)).item =
        .token token (s.location (lastLine text)) none := by
  cases closed with
  | false => exact item_deliver_word _ _ _ _ _ _
  | true =>
      cases hstrict : s.modes.strictKeywords with
      | true => exact ⟨_, Or.inl rfl, by simp [settle, hstrict, deliver]⟩
      | false =>
          obtain ⟨token, htoken, hitem⟩ := s.item_deliver_word registry (String.ofList body)
            (s.location (lastLine text)) none (newlineReports line text)
          exact ⟨token, htoken, by simpa [settle, hstrict] using hitem⟩

theorem spelled_word {name : String} (htoken : token = .name name ∨ ∃ word, token = .keyword word)
    {literal : String} (h : EndsIn text literal.toList) : token.Spelled text literal := by
  rcases htoken with rfl | ⟨word, rfl⟩ <;> exact h

/-- A token stands where the scanner has come to. -/
theorem stands_settle (s : Scanner) (registry : Registry) (line : Nat)
    (hspans : lexeme.Spans text) :
    (s.settle registry line text lexeme).item.Stands s.line s.column text := by
  have hown : '\n' ∉ text → EndsIn text (s.location text).literal.toList := by
    intro hline
    rw [location, String.toList_ofList]
    exact .refl hline
  cases lexeme with
  | blank | strayQuote | openQuote | brokenDecimal | strays | unknown => trivial
  | comment | integer | decimal => exact ⟨rfl, rfl, hown hspans⟩
  | word | signedWord =>
      obtain ⟨_, htoken, hitem⟩ := item_deliver_word _ registry (String.ofList text)
        (s.location text) _ []
      rw [settle, hitem]
      exact ⟨rfl, rfl, spelled_word htoken (hown hspans)⟩
  | quoted body closed =>
      obtain ⟨_, htoken, hitem⟩ := s.item_settle_quoted registry line text body closed
      rw [hitem]
      refine ⟨rfl, rfl, spelled_word htoken ?_⟩
      rw [location, String.toList_ofList]
      exact .last_line text
  | comparison kind proper =>
      refine ⟨rfl, rfl, ?_⟩
      show ∃ blanks, text = (s.location (trimEnd text)).literal.toList ++ blanks ∧ _
      rw [location, String.toList_ofList]
      exact trim_end_spec text
  | sign special =>
      cases special with
      | newline => exact ⟨rfl, rfl, hspans, rfl⟩
      | comparison => exact hspans.elim
      | _ => exact ⟨rfl, rfl, hown hspans⟩

/-! ### Line ends -/

/-- How an item comes to bring the line ends of its part of the text, with the text `behind` it:
the end of a line is a token, a quoted name or keyword may hold some until it is closed or the text
is at its end, and nothing else holds any. -/
inductive Carries (behind : List Char) : List Char → Item → Prop where
  | newline (place : Location) (tolerantAfter : Option Bool) :
      Carries behind ['\n'] (.token (.special .newline) place tolerantAfter)
  | closed {token : Token} {body : List Char} (place : Location)
      (htoken : token = .name (String.ofList body) ∨ ∃ word, token = .keyword word) :
      Carries behind ('"' :: (body ++ ['"'])) (.token token place none)
  | cutOff {token : Token} {body : List Char} (place : Location)
      (htoken : token = .name (String.ofList ('"' :: body)) ∨ ∃ word, token = .keyword word)
      (hbehind : behind = []) : Carries behind ('"' :: body) (.token token place none)
  | within {text : List Char} {item : Item} (hline : '\n' ∉ text)
      (hitem : ∀ place tolerantAfter, item ≠ .token (.special .newline) place tolerantAfter) :
      Carries behind text item

theorem Carries.of_mem (h : Carries behind text (.token token place tolerantAfter))
    (hmem : '\n' ∈ text) : token = .special .newline ∨ text.head? = some '"' := by
  cases h with
  | newline => exact Or.inl rfl
  | closed | cutOff => exact Or.inr rfl
  | within hline => exact absurd hmem hline

theorem carries_pull (registry : Registry) (hpending : s.pending = none)
    (hrest : s.rest = c :: rest) :
    Carries (s.pull registry).scanner.rest (c :: (Lexeme.read s.modes c rest).2)
      (s.pull registry).item := by
  rw [rest_pull hpending hrest]
  by_cases hc : c = '\n'
  · subst hc
    rw [pull_newline hpending hrest]
    exact .newline _ _
  rw [pull_eq_settle hpending hrest]
  have hspans := Lexeme.spans_read s.modes c rest
  have hsettled := settled_settle ((s.mapModes (·.start (Start.of c))).pass
    (c :: (Lexeme.read s.modes c rest).2)) registry s.line (c :: (Lexeme.read s.modes c rest).2)
    (Lexeme.read s.modes c rest).1
  generalize (s.mapModes (·.start (Start.of c))).pass _ = moved at hsettled ⊢
  rcases hread : Lexeme.read s.modes c rest with ⟨lexeme, tail⟩
  rw [hread] at hspans hsettled
  dsimp only at hspans hsettled ⊢
  -- Quoted texts are the only lexemes that may leave their line.
  by_cases hquoted : lexeme.IsQuoted
  · cases lexeme with
    | quoted body closed =>
        obtain ⟨token, htoken, hitem⟩ := moved.item_settle_quoted registry s.line (c :: tail) body
          closed
        obtain ⟨rfl, htail⟩ := Lexeme.read_eq_quoted hread
        rw [hitem]
        cases closed with
        | true =>
            obtain ⟨rfl, -⟩ := htail
            exact .closed _ htoken
        | false =>
            obtain rfl : tail = rest := htail
            exact .cutOff _ htoken List.drop_length
    | _ => cases hquoted
  · obtain ⟨hline, hsign⟩ := hspans.on_line hquoted fun h => hc (List.cons.inj h).1
    exact .within hline fun place tolerantAfter hitem =>
      hsign (hsettled.newline place tolerantAfter hitem)

/-! ### Places -/

/-- The scanner has read the text `before` of the source, and its line and column are those of the
end of that text. -/
structure Tracks (source : String) (before : List Char) (s : Scanner) : Prop where
  text : source.toList = before ++ s.rest
  line : s.line = before.count '\n'
  column : ∃ last, EndsIn before last ∧ s.column = last.length

theorem Tracks.pass (h : Tracks source before s) (hrest : s.rest = text ++ behind) :
    Tracks source (before ++ text) (s.pass text) ∧ (s.pass text).rest = behind := by
  have hbehind : (s.pass text).rest = behind := by
    show s.rest.drop text.length = behind
    rw [hrest, List.drop_left]
  refine ⟨⟨?_, ?_, ?_⟩, hbehind⟩
  · rw [hbehind, h.text, hrest, List.append_assoc]
  · rw [List.count_append, ← h.line]
    rfl
  · obtain ⟨last, hlast, hcolumn⟩ := h.column
    by_cases hcrossed : '\n' ∈ text
    · refine ⟨lastLine text, .append_crossed before (.last_line text) hcrossed, ?_⟩
      simp [Scanner.pass, hcrossed]
    · refine ⟨last ++ text, hlast.append hcrossed, ?_⟩
      simp [Scanner.pass, hcrossed, hcolumn]

/-- A pull from the text moves over the lexeme and keeps track of it. -/
theorem Tracks.pull (h : Tracks source before s) (hpending : s.pending = none)
    (hrest : s.rest = c :: rest) (registry : Registry) :
    ∃ behind, s.rest = c :: (Lexeme.read s.modes c rest).2 ++ behind ∧
      (s.pull registry).scanner.rest = behind ∧
      Tracks source (before ++ c :: (Lexeme.read s.modes c rest).2) (s.pull registry).scanner ∧
      (s.pull registry).item.Stands (s.pull registry).scanner.line
        (s.pull registry).scanner.column (c :: (Lexeme.read s.modes c rest).2) := by
  obtain ⟨behind, hbehind⟩ := Lexeme.read_prefix_rest s.modes c rest
  have hsplit : s.rest = c :: (Lexeme.read s.modes c rest).2 ++ behind := by
    rw [hrest, List.cons_append, hbehind]
  have hstart : Tracks source before (s.mapModes (·.start (Start.of c))) :=
    ⟨h.text, h.line, h.column⟩
  obtain ⟨hmoved, hmovedRest⟩ := hstart.pass hsplit
  have hstands := stands_settle ((s.mapModes (·.start (Start.of c))).pass
    (c :: (Lexeme.read s.modes c rest).2)) registry s.line (Lexeme.spans_read s.modes c rest)
  rw [pull_eq_settle hpending hrest]
  generalize (s.mapModes (·.start (Start.of c))).pass (c :: (Lexeme.read s.modes c rest).2) =
    moved at hmoved hmovedRest hstands
  obtain ⟨_, _, hscanner⟩ := scanner_settle moved registry s.line
    (c :: (Lexeme.read s.modes c rest).2) (Lexeme.read s.modes c rest).1
  rw [hscanner]
  exact ⟨behind, hsplit, hmovedRest, ⟨hmoved.text, hmoved.line, hmoved.column⟩, hstands⟩

/-- What the readers of a text do with its scanner: they have the next part brought, change the
modes or put a token back. A part that forms no token does not end the run. -/
inductive Use where
  | pull
  | mapModes (change : Modes → Modes)
  | putBack (token : Token) (place : Location)

/-- The scanner after one use. -/
def use (registry : Registry) (s : Scanner) : Use → Scanner
  | .pull => (s.pull registry).scanner
  | .mapModes change => s.mapModes change
  | .putBack token place => s.putBack token place

/-- The scanner after a run of uses. -/
def after (s : Scanner) (registry : Registry) (uses : List Use) : Scanner :=
  uses.foldl (use registry) s

theorem tracks_of_text (source : String) : Tracks source [] (ofText source) :=
  ⟨rfl, rfl, [], .refl (by simp), rfl⟩

theorem Tracks.use (h : Tracks source before s) (registry : Registry) (use : Use) :
    ∃ before, Tracks source before (s.use registry use) := by
  cases use with
  | mapModes | putBack => exact ⟨before, h.text, h.line, h.column⟩
  | pull =>
      unfold Scanner.use
      dsimp only
      cases hpending : s.pending with
      | some waiting =>
          -- The token that waits is delivered without a move.
          refine ⟨before, ?_⟩
          unfold Scanner.pull
          rw [hpending]
          exact ⟨h.text, h.line, h.column⟩
      | none =>
          cases hrest : s.rest with
          | nil =>
              refine ⟨before, ?_⟩
              simpa only [Scanner.pull, hpending, hrest] using h
          | cons c rest =>
              obtain ⟨_, -, -, hnext, -⟩ := h.pull hpending hrest registry
              exact ⟨_, hnext⟩

/-- Every run of uses keeps track of the text. -/
theorem Tracks.after (h : Tracks source before s) (registry : Registry) (uses : List Use) :
    ∃ before, Tracks source before (s.after registry uses) := by
  induction uses generalizing s before with
  | nil => exact ⟨before, h⟩
  | cons use uses ih =>
      obtain ⟨_, hnext⟩ := h.use registry use
      exact ih hnext

/-- Where a token from the text stands, how it is spelled, and where the scanner stands then. -/
theorem Tracks.exact (htracks : Tracks source before s) (hpending : s.pending = none)
    (hitem : (s.pull registry).item = .token token place tolerantAfter) :
    ∃ text behind, source.toList = before ++ text ++ behind ∧ s.rest = text ++ behind ∧
      (s.pull registry).scanner.rest = behind ∧ (s.pull registry).scanner.line = place.line ∧
      (s.pull registry).scanner.column = place.column ∧ token.PlacedAt before text place := by
  cases hrest : s.rest with
  | nil =>
      simp only [Scanner.pull, hpending, hrest] at hitem
      cases hitem
  | cons c rest =>
      obtain ⟨behind, hsplit, hbehind, hnext, hstands⟩ := htracks.pull hpending hrest registry
      rw [hitem] at hstands
      obtain ⟨hline, hcolumn, hspelled⟩ := hstands
      refine ⟨_, behind, ?_, hrest ▸ hsplit, hbehind, hline.symm, hcolumn.symm,
        ⟨c, rfl, ?_⟩, hline.trans hnext.line, ?_, hspelled, ?_, ?_⟩
      · rw [htracks.text, hsplit, List.append_assoc]
      · intro hblank
        rw [pull_blank hblank hpending hrest] at hitem
        cases hitem
      · obtain ⟨last, hlast, hlength⟩ := hnext.column
        exact ⟨last, hlast, hcolumn.trans hlength⟩
      -- A line end stands alone, so its place follows from the text in front.
      · rintro rfl
        obtain ⟨htext, -⟩ := hspelled
        obtain ⟨rfl, -⟩ := List.cons.inj htext
        rw [pull_newline hpending hrest] at hitem
        cases hitem
        rw [htracks.line]
      · intro hmem
        have hcarries := carries_pull registry hpending hrest
        rw [hitem] at hcarries
        exact hcarries.of_mem hmem

/-! ### Reading to the end -/

/-- A part of the text with what it brings and what is reported about it. -/
structure Part where
  text : List Char
  item : Item
  reports : List Report

namespace Part

/-- The part is delivered as the end of a line. -/
def isLineEnd (part : Part) : Bool :=
  match part.item with
  | .token (.special .newline) _ _ => true
  | _ => false

/-- The line ends inside the quotes of a name or keyword. -/
def quotedLineEnds (part : Part) : Nat :=
  match part.item with
  | .token (.name _) _ _ | .token (.keyword _) _ _ =>
    if part.text.head? = some '"' then part.text.count '\n' else 0
  | _ => 0

end Part

/-- The parts of the text up to its end. In front of each part the modes may be set anew, as `steer`
says, which knows what has been seen; a part that forms no token does not end the reading. -/
def parts (registry : Registry) (steer : List Item → Modes → Modes) (seen : List Item)
    (s : Scanner) : List Part :=
  let pulled := (s.mapModes (steer seen)).pull registry
  if pulled.item = .ended then []
  else
    ⟨s.rest.take (s.rest.length - pulled.scanner.rest.length), pulled.item, pulled.reports⟩ ::
      parts registry steer (seen ++ [pulled.item]) pulled.scanner
termination_by s.unread
decreasing_by exact (s.mapModes (steer seen)).unread_pull_lt registry ‹_›

/-- The line ends of a part are those that its item stands for. -/
theorem Carries.count {part : Part} (h : Carries behind part.text part.item) :
    part.text.count '\n' = (if part.isLineEnd then 1 else 0) + part.quotedLineEnds := by
  obtain ⟨text, item, reports⟩ := part
  cases h with
  | newline => rfl
  | closed place htoken | cutOff place htoken =>
      rcases htoken with rfl | ⟨word, rfl⟩ <;> simp [Part.isLineEnd, Part.quotedLineEnds]
  | within hline hitem =>
      have hcount : text.count '\n' = 0 := List.count_eq_zero_of_not_mem hline
      have hend : Part.isLineEnd ⟨text, item, reports⟩ = false := by
        unfold Part.isLineEnd
        split
        next heq => exact absurd heq (hitem _ _)
        · rfl
      have hquoted : Part.quotedLineEnds ⟨text, item, reports⟩ = 0 := by
        unfold Part.quotedLineEnds
        split <;> simp [hcount]
      rw [hcount, hend, hquoted]
      rfl

/-- The parts cut up the text, and each of them accounts for its line ends. -/
inductive Cut : List Char → List Part → Prop where
  | nil : Cut [] []
  | cons {behind : List Char} {part : Part} {parts : List Part}
      (hcarries : Carries behind part.text part.item) (hparts : Cut behind parts) :
      Cut (part.text ++ behind) (part :: parts)

namespace Cut

variable {parts : List Part}

theorem flat_map_text (h : Cut text parts) : parts.flatMap Part.text = text := by
  induction h with
  | nil => rfl
  | cons _ _ ih => rw [List.flatMap_cons, ih]

theorem count (h : Cut text parts) :
    text.count '\n' = parts.countP Part.isLineEnd + (parts.map Part.quotedLineEnds).sum := by
  induction h with
  | nil => rfl
  | cons hcarries _ ih =>
      rw [List.count_append, ih, hcarries.count, List.countP_cons, List.map_cons, List.sum_cons]
      omega

/-- A part is carried in front of the text of the parts behind it. -/
theorem carries (h : Cut text parts) {front after : List Part} {part : Part}
    (hparts : parts = front ++ part :: after) :
    Carries (after.flatMap Part.text) part.text part.item := by
  induction h generalizing front with
  | nil => cases front <;> cases hparts
  | cons hcarries hcut ih =>
      cases front with
      | nil =>
          cases hparts
          rw [hcut.flat_map_text]
          exact hcarries
      | cons first front => exact ih (List.cons.inj hparts).2

end Cut

theorem take_length_sub_length {whole : List Char} (h : whole = text ++ behind) :
    whole.take (whole.length - behind.length) = text := by
  rw [h, List.length_append, Nat.add_sub_cancel, List.take_left]

/-- One pull cuts off a part, and the others go on behind it. -/
theorem parts_of_rest (registry : Registry) (steer : List Item → Modes → Modes)
    (seen : List Item) (hpending : s.pending = none) (hrest : s.rest = c :: rest) :
    ∃ part : Part, ∃ next : Scanner, s.rest = part.text ++ next.rest ∧ next.pending = none ∧
      next.unread < s.unread ∧ Carries next.rest part.text part.item ∧
      s.parts registry steer seen =
        part :: next.parts registry steer (seen ++ [part.item]) := by
  have hlt := unread_pull_lt (s.mapModes (steer seen)) registry
  have hnext := pending_pull (s.mapModes (steer seen)) registry
  have hcarries := carries_pull (s := s.mapModes (steer seen)) registry hpending hrest
  have hne : ((s.mapModes (steer seen)).pull registry).item ≠ .ended := by
    rw [pull_eq_settle (s := s.mapModes (steer seen)) hpending hrest]
    exact item_settle_ne_ended _ _ _ _ _
  have hsplit : s.rest = c :: (Lexeme.read (s.mapModes (steer seen)).modes c rest).2 ++
      ((s.mapModes (steer seen)).pull registry).scanner.rest := by
    obtain ⟨behind, hbehind⟩ := Lexeme.read_prefix_rest (s.mapModes (steer seen)).modes c rest
    rw [rest_pull (s := s.mapModes (steer seen)) hpending hrest, drop_length_of_append hbehind,
      hrest, List.cons_append, hbehind]
  refine ⟨⟨_, _, ((s.mapModes (steer seen)).pull registry).reports⟩, _, hsplit, hnext, hlt hne,
    hcarries, ?_⟩
  rw [parts, if_neg hne, take_length_sub_length hsplit]

/-- At the end of the text there is nothing left. -/
theorem parts_of_rest_nil (registry : Registry) (steer : List Item → Modes → Modes)
    (seen : List Item) (hpending : s.pending = none) (hrest : s.rest = []) :
    s.parts registry steer seen = [] := by
  have hended : ((s.mapModes (steer seen)).pull registry).item = .ended := by
    simp only [pull, mapModes, hpending, hrest]
  rw [parts, if_pos hended]

/-- Reading to the end cuts up the text. -/
theorem cut_parts (registry : Registry) (steer : List Item → Modes → Modes) (seen : List Item)
    (s : Scanner) (hpending : s.pending = none) : Cut s.rest (s.parts registry steer seen) := by
  induction hunread : s.unread using Nat.strong_induction_on generalizing s seen with
  | _ unread ih =>
      cases hrest : s.rest with
      | nil =>
          rw [parts_of_rest_nil registry steer seen hpending hrest]
          exact .nil
      | cons c rest =>
          obtain ⟨part, next, hsplit, hnext, hlt, hcarries, hparts⟩ :=
            parts_of_rest registry steer seen hpending hrest
          rw [← hrest, hparts, hsplit]
          exact .cons hcarries (ih _ (hunread ▸ hlt) _ next hnext rfl)

/-- However a text is read to its end, the parts make up the text, and its line ends are as many as
those delivered and those inside quoted names and keywords. Each part accounts for its own: a part
with a line end is one, or a quoted name or keyword, which is closed or else the last of all. -/
theorem newlines_conserved (registry : Registry) (steer : List Item → Modes → Modes)
    (source : String) :
    let parts := (ofText source).parts registry steer []
    parts.flatMap Part.text = source.toList ∧
      source.toList.count '\n' =
        parts.countP Part.isLineEnd + (parts.map Part.quotedLineEnds).sum ∧
      ∀ front part after, parts = front ++ part :: after →
        Carries (after.flatMap Part.text) part.text part.item := by
  have hcut := cut_parts registry steer [] (ofText source) rfl
  exact ⟨hcut.flat_map_text, hcut.count, fun _ _ _ hparts => hcut.carries hparts⟩

end Scanner

end QuestScript
