import QuestScript.Proofs.Arguments.Tokens
import QuestScript.Proofs.Coupling.Scanners

/-!
# Names in front of an arrow

An object is written in front of what it is the object of, with an arrow between the two. What
stands behind the arrow is a word, and it is read as it would be without the object: the arrow only
says that the line has begun, which makes no difference to a word (`Scanner.pull_word_beside`).
-/

namespace QuestScript

open Lexeme (Gap)

/-! ### Words -/

namespace Lexeme

/-- The lexeme is a name or a keyword. -/
def IsWord : Lexeme → Prop
  | .word | .signedWord | .quoted _ _ => True
  | _ => False

variable {modes : Modes} {c : Char} {rest : List Char}

theorem read_fraction_not_is_word (whole rest : List Char) :
    ¬(readFraction whole rest).1.IsWord := by
  unfold readFraction
  dsimp only
  split <;> exact id

theorem read_comparison_not_is_word (c : Char) (rest : List Char) :
    ¬(readComparison c rest).1.IsWord := by
  unfold readComparison
  dsimp only
  split <;> exact id

/-- A special character starts a word only where a name is expected. -/
theorem read_special_not_is_word (h : modes.expectName = false) :
    ¬(readSpecial modes c rest).1.IsWord := by
  have hite : ∀ (p : Prop) [Decidable p] (x y : Lexeme × List Char), ¬x.1.IsWord → ¬y.1.IsWord →
      ¬(if p then x else y).1.IsWord := by
    intro p _ x y hx hy
    split
    · exact hx
    · exact hy
  unfold readSpecial
  rw [h, if_neg Bool.false_ne_true, if_neg Bool.false_ne_true]
  refine hite _ _ _ id (hite _ _ _ id (hite _ _ _ id (hite _ _ _ id ?_)))
  refine hite _ _ _ (hite _ _ _ (read_fraction_not_is_word _ _) id) (hite _ _ _ id ?_)
  refine hite _ _ _ (hite _ _ _ id id) (hite _ _ _ (read_comparison_not_is_word _ _) ?_)
  exact hite _ _ _ id (hite _ _ _ id (hite _ _ _ id id))

/-- Whether the line has begun makes no difference to a lexeme that starts with a letter, a digit or
a quote. -/
theorem read_ignore_special (h : Start.of c ≠ .special) (setting : Bool) :
    read { modes with ignoreSpecial := setting } c rest = read modes c rest := by
  unfold read
  split <;> first | rfl | contradiction

end Lexeme

namespace Scanner

variable {registry : Registry} {s t : Scanner} {name : String} {chars text : List Char}

/-- A name or a keyword is delivered for a word only. -/
theorem is_word_of_settle {line : Nat} {lexeme : Lexeme} {token : Token} {place : Location}
    {tolerantAfter : Option Bool}
    (h : (s.settle registry line text lexeme).item = .token token place tolerantAfter)
    (htoken : (∃ name, token = .name name) ∨ ∃ word, token = .keyword word) : lexeme.IsWord := by
  cases lexeme with
  | word | signedWord | quoted => trivial
  | blank | strayQuote | openQuote | brokenDecimal | strays | unknown => cases h
  | comment | integer | decimal | comparison =>
      cases h
      obtain ⟨_, ⟨⟩⟩ | ⟨_, ⟨⟩⟩ := htoken
  | sign special =>
      cases special <;>
        (cases h
         obtain ⟨_, ⟨⟩⟩ | ⟨_, ⟨⟩⟩ := htoken)

theorem deliver_word_line_start (s : Scanner) (lineStart : Bool) (name : String) (place : Location)
    (tolerantAfter : Option Bool) (reports : List Report) :
    ({ s with lineStart } : Scanner).deliverWord registry name place tolerantAfter reports =
      s.deliverWord registry name place tolerantAfter reports := by
  unfold deliverWord
  split
  · rfl
  · dsimp only
    split <;> rfl

theorem settle_line_start {line : Nat} {lexeme : Lexeme} {token : Token} {place : Location}
    {tolerantAfter : Option Bool}
    (h : (s.settle registry line text lexeme).item = .token token place tolerantAfter)
    (lineStart : Bool) :
    ({ s with lineStart } : Scanner).settle registry line text lexeme =
      s.settle registry line text lexeme := by
  cases lexeme with
  | blank | strayQuote | openQuote | brokenDecimal | strays | unknown => cases h
  | comment | integer | decimal | comparison => rfl
  | sign special => cases special <;> rfl
  | word => exact deliver_word_line_start _ _ _ _ _ _
  | signedWord =>
      exact deliver_word_line_start (s.mapModes fun modes => { modes with tolerantNames := true })
        _ _ _ _ _
  | quoted body closed =>
      unfold settle
      dsimp only
      split
      · rfl
      · exact deliver_word_line_start _ _ _ _ _ _

theorem exists_cons_of_pull (hpending : s.pending = none) (h : (s.pull registry).item ≠ .ended) :
    ∃ c rest, s.rest = c :: rest := by
  cases hrest : s.rest with
  | nil =>
      unfold pull at h
      rw [hpending, hrest] at h
      exact absurd rfl h
  | cons c rest => exact ⟨c, rest, rfl⟩

/-- Behind a token it is not known any more whether the line before it had ended. -/
theorem pull_line_start {token : Token} {place : Location} {tolerantAfter : Option Bool}
    (hpending : s.pending = none) (h : (s.pull registry).item = .token token place tolerantAfter)
    (lineStart : Bool) : ({ s with lineStart } : Scanner).pull registry = s.pull registry := by
  obtain ⟨c, rest, hrest⟩ := exists_cons_of_pull hpending (by rw [h]; rintro ⟨⟩)
  rw [pull_eq_settle hpending hrest] at h ⊢
  rw [pull_eq_settle (s := { s with lineStart }) hpending hrest]
  exact settle_line_start h lineStart

/-- A word is delivered as it is on a line that has begun. -/
theorem pull_word_beside (hs : s.pending = none) (ht : t.pending = none) (hrest : t.rest = s.rest)
    (hexpect : s.modes.expectName = false)
    (hmodes : t.modes = { s.modes with ignoreSpecial := false })
    {token : Token} {place : Location} {tolerantAfter : Option Bool}
    (hitem : (s.pull registry).item = .token token place tolerantAfter)
    (htoken : (∃ name, token = .name name) ∨ ∃ word, token = .keyword word) :
    Beside.Brings Token.SpelledSame (fun text text' => text' = text) (s.pull registry)
      (t.pull registry) := by
  obtain ⟨c, rest, htext⟩ := exists_cons_of_pull hs (by rw [hitem]; rintro ⟨⟩)
  have hlexeme := hitem
  rw [pull_eq_settle hs htext] at hlexeme
  have hword := is_word_of_settle hlexeme htoken
  -- No word starts with a special character, and the mode is about those alone.
  have hstart : Start.of c ≠ .special := by
    intro hspecial
    unfold Lexeme.read at hword
    rw [hspecial] at hword
    exact Lexeme.read_special_not_is_word hexpect hword
  have hmodes' : t.modes.start (Start.of c) = s.modes.start (Start.of c) := by
    unfold Lexeme.read at hword
    rw [hmodes]
    cases hc : Start.of c with
    | word => rfl
    | digit => rfl
    | special => exact absurd hc hstart
    | blank | comment =>
        rw [hc] at hword
        exact hword.elim
  have hread : Lexeme.read t.modes c rest = Lexeme.read s.modes c rest := by
    rw [hmodes]
    exact Lexeme.read_ignore_special hstart false
  have hbeside : ({ s with lineStart := t.lineStart, modes := s.modes.start (Start.of c) } :
      Scanner).Beside Token.SpelledSame (fun text text' => text' = text)
      { t with modes := t.modes.start (Start.of c) } :=
    ⟨hrest, by rw [hs, ht]; exact .none, hmodes', rfl⟩
  rw [← pull_line_start hs hitem t.lineStart,
    pull_eq_settle (s := { s with lineStart := t.lineStart }) hs htext,
    pull_eq_settle ht (hrest.trans htext), hread]
  refine (hbeside.pass ?_).settle (fun _ _ _ => id) _ _ _ _
  show t.rest.drop _ = s.rest.drop _
  rw [hrest]

/-- Nothing but a separator is passed over without a report. -/
theorem start_of_quiet_blank {s' : Scanner} (hpending : s.pending = none)
    (hpull : s.pull registry = ⟨.blank, s', []⟩) :
    ∃ c rest, s.rest = c :: rest ∧ Start.of c = .blank := by
  have hne : (s.pull registry).item ≠ .ended := by
    rw [hpull]
    rintro ⟨⟩
  obtain ⟨c, rest, hrest⟩ := exists_cons_of_pull hpending hne
  rw [pull_eq_settle hpending hrest] at hpull
  have hsettled := settled_settle ((s.mapModes (·.start (Start.of c))).pass
    (c :: (Lexeme.read s.modes c rest).2)) registry s.line (c :: (Lexeme.read s.modes c rest).2)
    (Lexeme.read s.modes c rest).1
  rw [hpull] at hsettled
  obtain hlexeme | hreports := (hsettled.blank rfl).2
  · have hmarked := Lexeme.marked_read s.modes c rest
    rw [hlexeme] at hmarked
    exact ⟨c, rest, hrest, hmarked⟩
  · exact absurd rfl hreports

/-- A word that comes next does so on a line that has begun as well. -/
theorem Yields.beside {token : Token} {place : Location} {next : Scanner}
    (h : Yields registry s token place next)
    (htoken : (∃ name, token = .name name) ∨ ∃ word, token = .keyword word)
    (hs : s.pending = none) (ht : t.pending = none) (hrest : t.rest = s.rest)
    (hexpect : s.modes.expectName = false)
    (hmodes : t.modes = { s.modes with ignoreSpecial := false }) :
    ∃ place' next', Yields registry t token place' next' ∧ place'.literal = place.literal ∧
      next.Displaced next' := by
  induction h generalizing t with
  | @token s next token place hpull =>
      have hitem : (s.pull registry).item = .token token place none := by rw [hpull]
      have hbrings := pull_word_beside hs ht hrest hexpect hmodes hitem htoken
      rw [hpull] at hbrings
      obtain ⟨hitem, hscanner, hreports⟩ := hbrings
      rcases hpull' : t.pull registry with ⟨item, next', reports⟩
      rw [hpull'] at hitem hscanner hreports
      cases hitem with
      | token _ _ hliteral =>
          cases hreports
          exact ⟨_, next', .token hpull', hliteral, hscanner⟩
  | @blank s s' next token place hpull _ ih =>
      obtain ⟨c, rest, htext, hblank⟩ := start_of_quiet_blank hs hpull
      cases (pull_blank hblank hs htext).symm.trans hpull
      obtain ⟨place', next', hyields, hliteral, hnext⟩ := ih htoken hs
        (t := { t with rest, column := t.column + 1 }) ht rfl hexpect hmodes
      exact ⟨place', next', .blank (pull_blank hblank ht (hrest.trans htext)) hyields, hliteral,
        hnext⟩

/-! ### An object and an arrow -/

/-- The ways to write a name: as a word, as a word that starts with a digit, and in quotes. -/
inductive NameText (registry : Registry) : String → List Char → Prop where
  | word {c : Char} {word : List Char} (hc : Start.of c = .word) (hquote : c ≠ '"')
      (hword : Lexeme.nameRun false word = word)
      (hkeyword : registry.keyword? (Text.toLower (String.ofList (c :: word))) = none) :
      NameText registry (String.ofList (c :: word)) (c :: word)
  | number {c d : Char} {digits word : List Char} (hc : c.isDigit = true)
      (hdigits : ∀ x ∈ digits, x.isDigit = true) (hd : d.isDigit = false)
      (hname : Lexeme.isNameChar d = true) (hword : Lexeme.nameRun false (d :: word) = d :: word)
      (hkeyword : registry.keyword?
        (Text.toLower (String.ofList (c :: (digits ++ d :: word)))) = none) :
      NameText registry (String.ofList (c :: (digits ++ d :: word))) (c :: (digits ++ d :: word))
  | quoted {body : List Char} (hquote : '"' ∉ body) (hline : '\n' ∉ body)
      (hkeyword : registry.keyword? (Text.toLower (String.ofList body)) = none) :
      NameText registry (String.ofList body) ('"' :: (body ++ ['"']))

/-- Behind the first word of a line the line has begun. -/
def begun (s : Scanner) (rest : List Char) (column : Nat) : Scanner :=
  { s with
    rest, column, modes := { s.modes with ignoreSpecial := false, expectName := false }
    lineStart := false }

/-- A word that is no keyword is delivered as a name. -/
theorem pull_of_word {c : Char} {more tail : List Char} (hpending : s.pending = none)
    (hrest : s.rest = c :: (more ++ tail))
    (hread : Lexeme.read s.modes c (more ++ tail) = (.word, more))
    (hc : Start.of c = .word ∨ Start.of c = .digit) (hquote : c ≠ '"')
    (hkeyword : registry.keyword? (Text.toLower (String.ofList (c :: more))) = none) :
    ∃ place column, s.pull registry =
      ⟨.token (.name (String.ofList (c :: more))) place none, s.begun tail column, []⟩ := by
  have hne : ∀ {d : Char}, Start.of d ≠ .word → Start.of d ≠ .digit → c ≠ d := by
    rintro d hword hdigit rfl
    exact hc.elim hword hdigit
  have hplain : IsPlain c := ⟨hne (by decide) (by decide), hquote, hne (by decide) (by decide)⟩
  have hline : '\n' ∉ c :: more := by
    intro hmem
    obtain hnewline | hmem := List.mem_cons.1 hmem
    · exact hplain.ne_newline hnewline.symm
    · have hmem' : '\n' ∈ (Lexeme.read s.modes c (more ++ tail)).2 := by rwa [hread]
      exact (Lexeme.is_plain_of_mem_read hplain hmem').ne_newline rfl
  refine ⟨⟨s.line, s.column + (more.length + 1), String.ofList (c :: more)⟩,
    s.column + (more.length + 1), ?_⟩
  rw [pull_of_read hpending hrest hread hline]
  show deliverWord _ registry _ _ = _
  rw [deliverWord, hkeyword]
  obtain hc | hc := hc <;> rw [hc] <;> rfl

theorem NameText.pull (h : NameText registry name chars) (hpending : s.pending = none)
    (hrest : s.rest = chars ++ '-' :: '>' :: text) (htolerant : s.modes.tolerantNames = false)
    (hexpect : s.modes.expectName = false) :
    ∃ place column, s.pull registry =
      ⟨.token (.name name) place none, s.begun ('-' :: '>' :: text) column, []⟩ := by
  -- However the name is written, the arrow behind it does not continue it.
  have hstop : Lexeme.continuesName false '-' ('>' :: text) = false := by
    simp [Lexeme.continuesName, show Lexeme.isNameChar '>' = false by decide,
      show Lexeme.isNameChar '-' = false by decide]
  cases h with
  | @word c word hc hquote hword hkeyword =>
      have hread : Lexeme.read s.modes c (word ++ '-' :: '>' :: text) = (.word, word) := by
        unfold Lexeme.read
        rw [hc]
        dsimp only
        rw [if_neg hquote, htolerant, Lexeme.name_run_before hword hstop]
      exact pull_of_word hpending hrest hread (Or.inl hc) hquote hkeyword
  | @number c d digits word hc hdigits hd hname hword hkeyword =>
      have hrest' : s.rest = c :: ((digits ++ d :: word) ++ '-' :: '>' :: text) := hrest
      have hread : Lexeme.read s.modes c ((digits ++ d :: word) ++ '-' :: '>' :: text) =
          (.word, digits ++ d :: word) := by
        rw [List.append_assoc, List.cons_append]
        have hbehind : (digits ++ d :: (word ++ '-' :: '>' :: text)).dropWhile Char.isDigit =
            d :: (word ++ '-' :: '>' :: text) := by
          rw [List.dropWhile_append_of_pos hdigits]
          simp [hd]
        have hrun : (digits ++ d :: (word ++ '-' :: '>' :: text)).takeWhile Char.isDigit =
            digits := by
          rw [Lexeme.take_while_append_cons hd]
          exact List.takeWhile_eq_self_iff.2 hdigits
        have hbefore := Lexeme.name_run_before hword hstop
        rw [List.cons_append] at hbefore
        unfold Lexeme.read
        rw [Start.of_is_digit hc]
        simp [hexpect, Lexeme.readNumber, hbehind, hrun, hname, htolerant, hbefore]
      have hquote : c ≠ '"' := (Lexeme.opens_of_is_digit hc).2.1
      exact pull_of_word hpending hrest' hread (Or.inr (Start.of_is_digit hc)) hquote hkeyword
  | @quoted body hquote hline hkeyword =>
      have hrest' : s.rest = '"' :: ((body ++ ['"']) ++ '-' :: '>' :: text) := hrest
      have hread : Lexeme.read s.modes '"' ((body ++ ['"']) ++ '-' :: '>' :: text) =
          (.quoted body true, body ++ ['"']) := by
        rw [List.append_assoc]
        exact Lexeme.read_quoted_closed s.modes.ignoreNewline hquote hline
      have hreports (line : Nat) : newlineReports line ('"' :: (body ++ ['"'])) = [] := by
        rw [newlineReports, List.count_eq_zero_of_not_mem (by simp [hline])]
        rfl
      refine ⟨⟨s.line, s.column + ((body ++ ['"']).length + 1),
        String.ofList (lastLine ('"' :: (body ++ ['"'])))⟩,
        s.column + ((body ++ ['"']).length + 1), ?_⟩
      rw [pull_of_read hpending hrest' hread (by simp [hline]), settle]
      dsimp only
      rw [hreports, Bool.true_and, if_pos rfl, deliverWord, hkeyword]
      exact ite_self _

theorem pull_arrow (registry : Registry) (hpending : s.pending = none)
    (hrest : s.rest = '-' :: '>' :: text) (hspecial : s.modes.ignoreSpecial = false) :
    ∃ place column, s.pull registry =
      ⟨.token (.special .reference) place none, s.begun text column, []⟩ := by
  have hread : Lexeme.read s.modes '-' (['>'] ++ text) = (.sign .reference, ['>']) := by
    show Lexeme.readSpecial s.modes '-' ('>' :: text) = _
    simp [Lexeme.readSpecial, hspecial]
  have hmodes : s.modes.start .special =
      { s.modes with ignoreSpecial := false, expectName := false } := by
    generalize s.modes = modes at hspecial
    cases modes
    cases hspecial
    rfl
  refine ⟨⟨s.line, s.column + 2, String.ofList ['-', '>']⟩, s.column + 2, ?_⟩
  rw [pull_of_read hpending hrest hread (by decide), show Start.of '-' = .special by decide, hmodes]
  rfl

end Scanner

/-- The session with an object and an arrow in front of the text. -/
def Session.withObject (s : Session) (object : List Char) : Session :=
  { s with scanner := { s.scanner with rest := object ++ '-' :: '>' :: s.scanner.rest } }

/-! ### Scans that come to a token -/

namespace Reading

variable {n : Nat} {σ : Type} {env : Environment} (mayEnd : σ → Bool)
  {feed : (m : Nat) → m < n → Token → Location → Reading m σ Verdict} {p q : σ} {s s' : Session}
  {token : Token} {place : Location}

/-- A scan passes over the blanks in front of a token. -/
theorem exists_scan_from_of_yields {scanner next : Scanner}
    (feed : (m : Nat) → m < n → Token → Location → Reading m σ Verdict) (p : σ)
    (h : scanner.Yields env.extensions token place next) (hs : s.scanner = scanner)
    (hle : s.unread ≤ n) :
    ∃ s₁ hle₁, s₁.pull env = (.token token place none, { s with scanner := next }) ∧
      scanFrom env mayEnd feed p s hle = scanFrom env mayEnd feed p s₁ hle₁ := by
  induction h generalizing s with
  | token hpull =>
      subst hs
      exact ⟨s, hle, Session.pull_of_quiet hpull, rfl⟩
  | @blank _ s' next token place hpull _ ih =>
      subst hs
      have hpull' : s.pull env = (.blank, { s with scanner := s' }) := Session.pull_of_quiet hpull
      have hle' : ({ s with scanner := s' } : Session).unread ≤ n := by
        have hlt := s.unread_pull_le env
        rw [hpull'] at hlt
        exact Nat.le_trans hlt hle
      obtain ⟨s₁, hle₁, hpull₁, hscan⟩ := ih (s := { s with scanner := s' }) rfl hle'
      exact ⟨s₁, hle₁, hpull₁, (scan_from_of_is_passed hpull' trivial hle').trans hscan⟩

/-- A scan goes on behind a token that its reader takes without a change of the session. -/
theorem exists_scan_from_of_more (hpull : s.pull env = (.token token place none, s'))
    (htoken : token.IsOffered)
    (hfeed : ∀ m hm hle, (feed m hm token place).run p s' hle = ⟨.ok .more, q, s'⟩)
    (hle : s.unread ≤ n) :
    ∃ hle', scanFrom env mayEnd feed p s hle = scanFrom env mayEnd feed q s' hle' := by
  have hlt := s.unread_pull_lt env
  rw [hpull] at hlt
  replace hlt : s'.unread < s.unread := hlt (by rintro ⟨⟩)
  have hturn : turn env mayEnd feed p s hle = .again q s' := by
    rw [turn_of_token hpull htoken.1 htoken.2 (by omega), hfeed]
    rfl
  exact ⟨by omega, scan_from_of_again hturn (by omega)⟩

/-- A scan whose reader takes an object and an arrow goes on behind them. -/
theorem exists_scan_from_with_object
    (feed : (m : Nat) → m < n → Token → Location → Reading m σ Verdict) (p q r : σ) {name : String}
    {object : List Char}
    (hname : Scanner.NameText env.extensions name object) (hpending : s.scanner.pending = none)
    (htolerant : s.scanner.modes.tolerantNames = false)
    (hexpect : s.scanner.modes.expectName = false)
    (hobject : ∀ m hm place scanner hle,
      (feed m hm (.name name) place).run p { s with scanner } hle =
        ⟨.ok .more, q, { s with scanner }⟩)
    (harrow : ∀ m hm place scanner hle,
      (feed m hm (.special .reference) place).run q { s with scanner } hle =
        ⟨.ok .more, r, { s with scanner }⟩)
    (hle : (s.withObject object).unread ≤ n) :
    ∃ column hle', scanFrom env mayEnd feed p (s.withObject object) hle =
      scanFrom env mayEnd feed r
        { s with scanner := s.scanner.begun s.scanner.rest column } hle' := by
  obtain ⟨place, column, hpull⟩ := hname.pull (s := (s.withObject object).scanner) hpending rfl
    htolerant hexpect
  obtain ⟨place', column', hpull'⟩ := Scanner.pull_arrow env.extensions
    (s := s.scanner.begun ('-' :: '>' :: s.scanner.rest) column) hpending rfl rfl
  obtain ⟨hle₁, hscan₁⟩ := exists_scan_from_of_more mayEnd (Session.pull_of_quiet hpull)
    (Token.is_offered_name name) (fun _ _ _ => hobject _ _ _ _ _) hle
  obtain ⟨hle₂, hscan₂⟩ := exists_scan_from_of_more mayEnd
    (s := { s with scanner := s.scanner.begun ('-' :: '>' :: s.scanner.rest) column })
    (Session.pull_of_quiet hpull') (Token.is_offered_special .reference)
    (fun _ _ _ => harrow _ _ _ _ _) hle₁
  exact ⟨column', _, hscan₁.trans hscan₂⟩

end Reading

end QuestScript
