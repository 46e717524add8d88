import QuestScript.Proofs.LowerCase
import QuestScript.Proofs.StackSafety
import QuestScript.Proofs.Strays.Names
import QuestScript.Proofs.Tracking

/-!
# Tokens written plainly

Tokens can be written out in their plain spelling, with single blanks between them and a line end
behind each line (`Token.render`). The main statement is `Scanner.parts_render`: read to its end,
such a text brings the same tokens again and nothing is reported. What has to be said of the tokens
is that each has a plain spelling (`Token.isPlain`), that a line starts with a word or a number, and
that no two comparisons stand side by side, since they would be read as one.
-/

namespace QuestScript

/-! ### Plain spellings -/

theorem Lexeme.name_run_of_forall {word : List Char} (h : ∀ c ∈ word, isNameChar c = true) :
    nameRun false word = word := by
  induction word with
  | nil => rfl
  | cons c word ih =>
      have hc : continuesName false c word = true := by
        simp [continuesName, h c List.mem_cons_self]
      rw [nameRun, if_pos hc, ih fun x hx => h x (List.mem_cons_of_mem c hx)]

/-- The keyword with a number. -/
def Registry.word? (registry : Registry) (code : Int) : Option String :=
  (registry.keywords.map (·.1)).find? (registry.codeOf? · == some code)

/-- The characters of the plain spelling of a sign. -/
def Special.chars : Special → List Char
  | .newline => ['\n']
  | .opening => ['(']
  | .closing => [')']
  | .comparison kind => kind.spelling.toList
  | .plus => ['+']
  | .minus => ['-']
  | .times => ['*']
  | .divided => ['/']
  | .comma => [',']
  | .reference => ['-', '>']
  | .member => ['.']

namespace Token

/-- The plain spelling of a token. -/
def spelling (registry : Registry) : Token → String
  | .int value => Nat.repr value.toNatClampNeg
  | .name text => text
  | .keyword (.builtin word) => word.spelling
  | .keyword (.extension code) => (registry.word? code).getD ""
  | .special sign => String.ofList sign.chars
  | _ => ""

/-- The token can be told by its plain spelling: a number that is not negative, an identifier that
is no keyword, a keyword that is an identifier and is not hidden by a word of the language, or a
sign other than a line end. -/
def isPlain (registry : Registry) : Token → Bool
  | .int value => decide (0 ≤ value)
  | .name text => Text.isIdentifier text && (registry.keyword? (Text.toLower text)).isNone
  | .keyword (.builtin _) => true
  | .keyword (.extension code) => (registry.word? code).any fun word =>
    Text.isIdentifier word && (Builtin.ofSpelling? word).isNone
  | .special sign => sign != .newline
  | _ => false

/-- The token may start a line: it is a word or a number. -/
def beginsLine : Token → Bool
  | .int _ | .name _ | .keyword _ => true
  | _ => false

/-- The line can be written out and read again. -/
structure Renders (registry : Registry) (line : List Token) : Prop where
  plain : ∀ token ∈ line, token.isPlain registry = true
  begins : ∀ token ∈ line.head?, token.beginsLine = true
  apart : line.IsChain fun a b => a.IsComparison → ¬b.IsComparison

/-- The lines, with a single blank between two tokens and a line end behind each line. -/
def render (registry : Registry) (lines : List (List Token)) : String :=
  String.join (lines.map fun line => " ".intercalate (line.map (spelling registry)) ++ "\n")

variable {registry : Registry}

/-- What stands on a line behind its first token. -/
def behindFirst (registry : Registry) (tokens : List Token) : List Char :=
  tokens.flatMap fun token => ' ' :: (token.spelling registry).toList

theorem to_list_intercalate_spelling (token : Token) (tokens : List Token) :
    (" ".intercalate ((token :: tokens).map (spelling registry))).toList =
      (token.spelling registry).toList ++ behindFirst registry tokens := by
  rw [String.toList_intercalate]
  induction tokens generalizing token with
  | nil => simp [behindFirst]
  | cons next tokens ih =>
      rw [List.map_cons, List.map_cons, List.map_cons, List.map_cons, List.intercalate_cons_cons]
      have htail := ih next
      rw [List.map_cons, List.map_cons] at htail
      rw [htail, behindFirst, behindFirst, List.flatMap_cons, List.append_assoc]
      rfl

theorem to_list_render_cons (line : List Token) (lines : List (List Token)) :
    (render registry (line :: lines)).toList =
      (" ".intercalate (line.map (spelling registry))).toList ++
        '\n' :: (render registry lines).toList := by
  simp [render]

end Token

/-! ### Words -/

/-- The keyword with a number has this number. -/
theorem Registry.Built.keyword?_word {registry : Registry} {code : Int} {word : String}
    (h : registry.Built) (hword : registry.word? code = some word)
    (hbuiltin : Builtin.ofSpelling? word = none) :
    registry.keyword? (Text.toLower word) = some (.extension code) := by
  have hcode : registry.codeOf? word = some code := by
    simpa using List.find?_some hword
  rw [h.lower hcode, keyword?, hbuiltin, hcode, Option.map_some]

theorem Builtin.is_identifier_spelling (word : Builtin) :
    Text.isIdentifier word.spelling = true := by
  cases word <;> rfl

theorem Registry.keyword?_spelling (registry : Registry) (word : Builtin) :
    registry.keyword? (Text.toLower word.spelling) = some (.builtin word) := by
  cases word <;> rfl

/-- The plain spelling of a keyword is an identifier and spells the keyword. -/
theorem Token.keyword_of_is_plain {registry : Registry} (hregistry : registry.Built)
    {word : Keyword} (h : (Token.keyword word).isPlain registry = true) :
    Text.isIdentifier ((Token.keyword word).spelling registry) = true ∧
      registry.keyword? (Text.toLower ((Token.keyword word).spelling registry)) = some word := by
  cases word with
  | builtin word => exact ⟨word.is_identifier_spelling, registry.keyword?_spelling word⟩
  | extension code =>
      obtain ⟨word, hword, hplain⟩ := (Option.any_eq_true _ _).1 h
      rw [Bool.and_eq_true, Option.isNone_iff_eq_none] at hplain
      have hspelling : (Token.keyword (.extension code)).spelling registry = word := by
        show (registry.word? code).getD "" = word
        rw [hword, Option.getD_some]
      rw [hspelling]
      exact ⟨hplain.1, hregistry.keyword?_word hword hplain.2⟩

/-! ### Numbers -/

theorem Text.value_of_digits_to_digits (n : Nat) : valueOfDigits (Nat.toDigits 10 n) = n := by
  have hvalue := Nat.ofDigitChars_ten_toDigits (n := n)
  rw [Nat.ofDigitChars_eq_foldl] at hvalue
  simpa only [valueOfDigits, Nat.mul_comm] using hvalue

/-- The digits of a number that is not negative are read as that number. -/
theorem Scanner.integer_value_repr {value : Int32} (h : 0 ≤ value) :
    integerValue (Nat.repr value.toNatClampNeg).toList = value := by
  have hlargest : value.toNatClampNeg ≤ largestInteger := Nat.le_pred_of_lt value.toNatClampNeg_lt
  rw [Nat.repr_eq_ofList_toDigits, String.toList_ofList, integerValue,
    Text.value_of_digits_to_digits, Nat.min_eq_left hlargest]
  exact Int32.ofNat_toNatClampNeg value h

theorem Text.exists_digits (n : Nat) :
    ∃ c digits, (Nat.repr n).toList = c :: digits ∧ ∀ x ∈ c :: digits, x.isDigit = true := by
  rw [Nat.repr_eq_ofList_toDigits, String.toList_ofList]
  obtain ⟨c, digits, hdigits⟩ := List.exists_cons_of_ne_nil (Nat.toDigits_ne_nil (n := n) (b := 10))
  exact ⟨c, digits, hdigits, fun x hx =>
    Nat.isDigit_of_mem_toDigits (by decide) (Nat.le_refl 10) (hdigits ▸ hx)⟩

/-! ### One token -/

namespace Token

variable {registry : Registry} {token : Token}

@[simp] theorem to_list_spelling_special (sign : Special) :
    ((Token.special sign).spelling registry).toList = sign.chars :=
  String.toList_ofList

/-- Numbers, names, comparisons and most signs are written as in a formula. -/
theorem written_or_of_is_plain (h : token.isPlain registry = true) :
    token.Written registry (token.spelling registry).toList ∨ (∃ word, token = .keyword word) ∨
      token = .special .comma ∨ token = .special .reference ∨ token = .special .member := by
  cases token with
  | int value =>
      left
      obtain ⟨c, digits, hdigits, hall⟩ := Text.exists_digits value.toNatClampNeg
      have hwritten : Written registry (.int (Scanner.integerValue (c :: digits))) (c :: digits) :=
        .int hall
      rw [← hdigits, Scanner.integer_value_repr (of_decide_eq_true h)] at hwritten
      exact hwritten
  | float | comment | endOfText => cases h
  | name text =>
      left
      rw [isPlain, Bool.and_eq_true, Option.isNone_iff_eq_none] at h
      obtain ⟨c, rest, htext, hc, hquote, hrest⟩ := Text.exists_cons_of_is_identifier h.1
      have hname : text = String.ofList (c :: rest) := by rw [← htext, String.ofList_toList]
      have hkeyword := h.2
      rw [hname] at hkeyword
      show Written registry (.name text) text.toList
      rw [htext, hname]
      exact .name hc hquote (Lexeme.name_run_of_forall hrest) hkeyword
  | keyword word => exact Or.inr (Or.inl ⟨word, rfl⟩)
  | special sign =>
      rw [to_list_spelling_special]
      cases sign with
      | newline => cases h
      | comparison kind =>
          left
          have hkind : Lexeme.comparisonOf? kind.spelling.toList = some (kind, true) := by
            cases kind <;> decide
          exact .comparison hkind
      | comma | reference | member => simp
      | opening | closing | plus | minus | times | divided => exact Or.inl (.mark (by decide))

/-- The first character of a plain spelling. -/
theorem exists_cons_of_is_plain (hregistry : registry.Built)
    (h : token.isPlain registry = true) :
    ∃ c rest, (token.spelling registry).toList = c :: rest ∧ Start.of c ≠ .blank ∧
      (¬token.IsComparison → c ∉ Lexeme.comparisonChars) := by
  obtain hwritten | ⟨word, rfl⟩ | rfl | rfl | rfl := written_or_of_is_plain h
  · obtain ⟨c, rest, hchars, hopens, -, hcompare⟩ := hwritten.exists_cons
    exact ⟨c, rest, hchars, hopens.not_blank, hcompare⟩
  · obtain ⟨hidentifier, -⟩ := keyword_of_is_plain hregistry h
    obtain ⟨c, rest, hchars, hc, -⟩ := Text.exists_cons_of_is_identifier hidentifier
    exact ⟨c, rest, hchars, by simp [hc],
      fun _ => Lexeme.not_mem_comparison_chars (by simp [hc])⟩
  all_goals rw [to_list_spelling_special]
  · exact ⟨',', [], rfl, by decide, fun _ => by decide⟩
  · exact ⟨'-', ['>'], rfl, by decide, fun _ => by decide⟩
  · exact ⟨'.', [], rfl, by decide, fun _ => by decide⟩

/-- What may start a line starts with a letter, an underscore or a digit. -/
theorem start_of_begins_line (hregistry : registry.Built) (h : token.isPlain registry = true)
    (hbegins : token.beginsLine = true) :
    ∃ c rest, (token.spelling registry).toList = c :: rest ∧
      (Start.of c = .word ∨ Start.of c = .digit) := by
  cases token with
  | int value =>
      obtain ⟨c, digits, hdigits, hall⟩ := Text.exists_digits value.toNatClampNeg
      exact ⟨c, digits, hdigits, Or.inr (Start.of_is_digit (hall c List.mem_cons_self))⟩
  | name text =>
      rw [isPlain, Bool.and_eq_true] at h
      obtain ⟨c, rest, htext, hc, -⟩ := Text.exists_cons_of_is_identifier h.1
      exact ⟨c, rest, htext, Or.inl hc⟩
  | keyword word =>
      obtain ⟨hidentifier, -⟩ := keyword_of_is_plain hregistry h
      obtain ⟨c, rest, hchars, hc, -⟩ := Text.exists_cons_of_is_identifier hidentifier
      exact ⟨c, rest, hchars, Or.inl hc⟩
  | float | special | comment | endOfText => cases hbegins

end Token

namespace Scanner

open Lexeme (Gap)

variable {registry : Registry} {s next : Scanner} {token : Token} {place : Location}

/-- A keyword comes next and leaves the line begun, whether or not it allows texts that run over
line ends. -/
theorem Faces.yields_keyword {word : Keyword} {c d : Char} {gap more rest : List Char}
    (hs : s.Faces false (gap ++ c :: (more ++ d :: rest))) (hgap : Gap gap)
    (hc : Start.of c = .word) (hquote : c ≠ '"')
    (hmore : ∀ x ∈ more, Lexeme.isNameChar x = true)
    (hkeyword : registry.keyword? (Text.toLower (String.ofList (c :: more))) = some word)
    (hd : Lexeme.IsEdge d) :
    ∃ place s', Yields registry s (.keyword word) place s' ∧ s'.Faces false (d :: rest) := by
  have hopens := Lexeme.Opens.of_word hc
  obtain ⟨hpending, hmodes, gap', hgap', hrest⟩ | ⟨rfl, -⟩ | ⟨rfl, -⟩ :=
    hs.cases_of_gap hgap hopens.not_blank
  · have hstop : Lexeme.continuesName s.modes.tolerantNames d rest = false := by
      have hname : Lexeme.isNameChar d = false := hd.elim (Lexeme.isNameChar · = false) (by decide)
      have hhyphen : (d == '-') = false := hd.elim (fun x => (x == '-') = false) (by decide)
      rw [hmodes.tolerantNames]
      simp [Lexeme.continuesName, hname, hhyphen]
    let passed : Scanner :=
      { s with rest := c :: (more ++ d :: rest), column := s.column + gap'.length }
    have hpull : passed.pull registry = _ := pull_word hpending rfl hc hquote hmore hstop
    have hbegun : (s.modes.start .word).Begun false := hc ▸ hmodes.start hopens.1
    rw [deliverWord, hkeyword] at hpull
    dsimp only at hpull
    split at hpull
    · exact ⟨_, _, .of_gap hgap' hpending hrest (.token hpull), .unread [] hpending rfl
        (by rintro _ ⟨⟩) ⟨hbegun.ignoreSpecial, hbegun.tolerantNames, hbegun.expectName⟩⟩
    · exact ⟨_, _, .of_gap hgap' hpending hrest (.token hpull),
        .unread [] hpending rfl (by rintro _ ⟨⟩) hbegun⟩
  · exact absurd rfl hopens.2.1
  · exact absurd rfl hopens.2.2

/-- A token in its plain spelling comes next, if what stands behind it does not continue it. -/
theorem Faces.yields_is_plain (hregistry : registry.Built) {front back rest : List Char} {d : Char}
    (hs : s.Faces false (front ++ ((token.spelling registry).toList ++ (back ++ d :: rest))))
    (hfront : Gap front) (h : token.isPlain registry = true) (hback : Gap back)
    (hd : Start.of d ≠ .blank) (hedge : back = [] → Lexeme.IsEdge d)
    (hcompare : token.IsComparison → d ∉ Lexeme.comparisonChars) :
    ∃ place s', Yields registry s token place s' ∧ s'.Faces false (back ++ d :: rest) := by
  obtain ⟨x, tail, htail, hx⟩ : ∃ x tail, back ++ d :: rest = x :: tail ∧ Lexeme.IsEdge x := by
    cases back with
    | nil => exact ⟨d, rest, rfl, hedge rfl⟩
    | cons x back => exact ⟨x, back ++ d :: rest, rfl, Or.inl (hback x List.mem_cons_self)⟩
  obtain hwritten | ⟨word, rfl⟩ | rfl | rfl | rfl := Token.written_or_of_is_plain h
  · exact hs.yields_written hfront hwritten hback hd hedge hcompare
  · obtain ⟨hidentifier, hkeyword⟩ := Token.keyword_of_is_plain hregistry h
    obtain ⟨c, more, hchars, hc, hquote, hmore⟩ := Text.exists_cons_of_is_identifier hidentifier
    rw [← String.ofList_toList (s := Token.spelling _ _), hchars] at hkeyword
    rw [hchars, htail] at hs
    rw [htail]
    exact hs.yields_keyword hfront hc hquote hmore hkeyword hx
  all_goals rw [Token.to_list_spelling_special] at hs
  · obtain ⟨place, s', hyields, -, expect', hs', hexpect⟩ := hs.yields_comma hfront
    rw [hexpect rfl] at hs'
    exact ⟨place, s', hyields, hs'⟩
  · have hread (modes : Modes) (hmodes : modes.Begun false) :
        Lexeme.read modes '-' (['>'] ++ (back ++ d :: rest)) = (.sign .reference, ['>']) := by
      show Lexeme.readSpecial modes '-' ('>' :: (back ++ d :: rest)) = _
      simp [Lexeme.readSpecial, hmodes.ignoreSpecial]
    exact hs.yields_plain hfront (by decide) (by decide) hread fun _ _ => ⟨_, rfl⟩
  -- A point in front of a digit would begin a number.
  · have hdigit : x.isDigit = false := hx.elim (·.isDigit = false) (by decide)
    have hread (modes : Modes) (hmodes : modes.Begun false) :
        Lexeme.read modes '.' ([] ++ x :: tail) = (.sign .member, []) := by
      show Lexeme.readSpecial modes '.' (x :: tail) = _
      simp [Lexeme.readSpecial, hmodes.ignoreSpecial, hmodes.expectName, hdigit]
    rw [htail] at hs ⊢
    exact hs.yields_plain hfront (by decide) (by decide) hread fun _ _ => ⟨_, rfl⟩

/-! ### One line -/

/-- The tokens come one behind the other, with nothing but blanks between them, and nothing is
reported. -/
inductive Shows (registry : Registry) : Scanner → List Token → Scanner → Prop where
  | nil (s : Scanner) : Shows registry s [] s
  | cons {s next final : Scanner} {token : Token} {place : Location} {tokens : List Token}
      (h : Yields registry s token place next) (hrest : Shows registry next tokens final) :
      Shows registry s (token :: tokens) final

theorem Shows.append {tokens more : List Token} {final : Scanner}
    (h : Shows registry s tokens next) (hmore : Shows registry next more final) :
    Shows registry s (tokens ++ more) final := by
  induction h with
  | nil => exact hmore
  | cons hyields _ ih => exact .cons hyields (ih hmore)

/-- The scanner is at the start of a line, in front of the text. -/
structure Fresh (text : List Char) (s : Scanner) : Prop where
  pending : s.pending = none
  rest : s.rest = text
  modes : s.modes = {}

theorem Yields.of_pull_eq {t : Scanner} (h : Yields registry t token place next)
    (hpull : s.pull registry = t.pull registry) : Yields registry s token place next := by
  cases h with
  | token htoken => exact .token (hpull.trans htoken)
  | blank hblank hrest => exact .blank (hpull.trans hblank) hrest

/-- The end of a line starts the next one. -/
theorem Faces.shows_newline {text : List Char} (hs : s.Faces false ('\n' :: text))
    (hpending : s.pending = none) :
    ∃ final, Shows registry s [.special .newline] final ∧ final.Fresh text := by
  have hs' : s.Faces false ([] ++ '\n' :: text) := hs
  obtain ⟨-, -, gap, hgap, hrest⟩ | ⟨⟨⟩, -⟩ | ⟨-, place, hplace, -⟩ :=
    hs'.cases_of_gap (by rintro _ ⟨⟩) (by decide)
  · exact ⟨_, .cons (.of_gap hgap hpending hrest (.token (pull_newline hpending rfl))) (.nil _),
      hpending, rfl, rfl⟩
  · cases hpending.symm.trans hplace

/-- Whether the line has begun makes no difference to a word or a number. -/
theorem pull_begun {c : Char} {rest : List Char} (hpending : s.pending = none)
    (hrest : s.rest = c :: rest) (hc : Start.of c = .word ∨ Start.of c = .digit) :
    s.pull registry =
      (s.mapModes fun modes => { modes with ignoreSpecial := false }).pull registry := by
  have hspecial : Start.of c ≠ .special := by
    rcases hc with hc | hc <;> simp [hc]
  have hread : Lexeme.read (s.mapModes fun modes => { modes with ignoreSpecial := false }).modes c
      rest = Lexeme.read s.modes c rest := Lexeme.read_ignore_special hspecial false
  rw [pull_eq_settle hpending hrest,
    pull_eq_settle (s := s.mapModes fun modes => { modes with ignoreSpecial := false }) hpending
      hrest, hread]
  rcases hc with hc | hc <;> rw [hc] <;> rfl

/-- On a line that has begun, the tokens come as they are written, and the line end behind them. -/
theorem Faces.shows_tokens (hregistry : registry.Built) {tokens : List Token}
    {front text : List Char} (hfront : Gap front)
    (hplain : ∀ t ∈ token :: tokens, t.isPlain registry = true)
    (hapart : (token :: tokens).IsChain fun a b => a.IsComparison → ¬b.IsComparison)
    (hs : s.Faces false (front ++ ((token.spelling registry).toList ++
      (Token.behindFirst registry tokens ++ '\n' :: text)))) :
    ∃ final, Shows registry s (token :: tokens ++ [.special .newline]) final ∧
      final.Fresh text := by
  induction tokens generalizing s token front with
  | nil =>
      have hs' : s.Faces false
          (front ++ ((token.spelling registry).toList ++ ([] ++ '\n' :: text))) := hs
      obtain ⟨place, next, hyields, hnext⟩ := hs'.yields_is_plain hregistry hfront
        (hplain token List.mem_cons_self) (by rintro _ ⟨⟩) (by decide)
        (fun _ => Or.inr (Or.inr rfl))
        (fun _ => by decide)
      obtain ⟨final, hfinal, hfresh⟩ := hnext.shows_newline hyields.pending_eq_none
      exact ⟨final, .cons hyields hfinal, hfresh⟩
  | cons second tokens ih =>
      have hblank : Gap [' '] := fun x hx => by rw [List.mem_singleton.1 hx]; rfl
      have hsecond := hplain second (by simp)
      obtain ⟨d, rest, hchars, hd, hcompare⟩ := Token.exists_cons_of_is_plain hregistry hsecond
      -- One blank keeps any two tokens apart but comparisons, which may have blanks in them.
      obtain ⟨hfirst, hchain⟩ := List.isChain_cons_cons.1 hapart
      have htext : Token.behindFirst registry (second :: tokens) ++ '\n' :: text =
          [' '] ++ d :: (rest ++ (Token.behindFirst registry tokens ++ '\n' :: text)) := by
        rw [Token.behindFirst, List.flatMap_cons, hchars]
        simp [Token.behindFirst]
      rw [htext] at hs
      obtain ⟨place, next, hyields, hnext⟩ := hs.yields_is_plain hregistry hfront
        (hplain token List.mem_cons_self) hblank hd (by rintro ⟨⟩)
        (fun hcompares => hcompare (hfirst hcompares))
      rw [← List.cons_append, ← hchars] at hnext
      obtain ⟨final, hfinal, hfresh⟩ := ih hblank
        (fun t ht => hplain t (List.mem_cons_of_mem token ht)) hchain hnext
      exact ⟨final, .cons hyields hfinal, hfresh⟩

/-- A line that is written out comes as it is written. -/
theorem Fresh.shows_line (hregistry : registry.Built) {line : List Token} {text : List Char}
    (hline : Token.Renders registry line)
    (hs : s.Fresh ((" ".intercalate (line.map (Token.spelling registry))).toList ++ '\n' :: text)) :
    ∃ final, Shows registry s (line ++ [.special .newline]) final ∧ final.Fresh text := by
  cases line with
  | nil =>
      exact ⟨_, .cons (.token (pull_newline hs.pending hs.rest)) (.nil _), hs.pending, rfl, rfl⟩
  | cons token tokens =>
      obtain ⟨c, rest, hchars, hc⟩ := Token.start_of_begins_line hregistry
        (hline.plain token List.mem_cons_self) (hline.begins token rfl)
      obtain ⟨hpending, hrest, hmodes⟩ := hs
      rw [Token.to_list_intercalate_spelling, List.append_assoc] at hrest
      let begun := s.mapModes fun modes => { modes with ignoreSpecial := false }
      have hbegun : begun.Faces false ([] ++ ((token.spelling registry).toList ++
          (Token.behindFirst registry tokens ++ '\n' :: text))) :=
        .unread [] hpending hrest.symm (by rintro _ ⟨⟩)
          ⟨rfl, congrArg Modes.tolerantNames hmodes, congrArg Modes.expectName hmodes⟩
      obtain ⟨final, hshows, hfinal⟩ := hbegun.shows_tokens hregistry (by rintro _ ⟨⟩) hline.plain
        hline.apart
      rw [hchars] at hrest
      cases hshows with
      | cons hyields hshows =>
          exact ⟨final, .cons (hyields.of_pull_eq (pull_begun hpending hrest hc)) hshows, hfinal⟩

/-- So do all lines. -/
theorem Fresh.shows_render (hregistry : registry.Built) {lines : List (List Token)}
    (hlines : ∀ line ∈ lines, Token.Renders registry line)
    (hs : s.Fresh (Token.render registry lines).toList) :
    ∃ final, Shows registry s (lines.flatMap (· ++ [.special .newline])) final ∧
      final.Fresh [] := by
  induction lines generalizing s with
  | nil => exact ⟨s, .nil s, hs⟩
  | cons line lines ih =>
      rw [Token.to_list_render_cons] at hs
      obtain ⟨next, hnext, hfresh⟩ := hs.shows_line hregistry (hlines line List.mem_cons_self)
      obtain ⟨final, hfinal, hended⟩ :=
        ih (fun other hother => hlines other (List.mem_cons_of_mem line hother)) hfresh
      exact ⟨final, hnext.append hfinal, hended⟩

/-! ### Reading to the end -/

/-- The token that a part brings. -/
def Part.token? (part : Part) : Option Token :=
  match part.item with
  | .token token _ _ => some token
  | _ => none

/-- The part is a blank or brings a token, and nothing is reported about it. -/
def Part.IsQuiet (part : Part) : Prop :=
  part.reports = [] ∧ (part.item = .blank ∨ part.token?.isSome = true)

/-- A part is followed by those behind it, if the modes are left alone. -/
theorem parts_of_pull {item : Item} {reports : List Report}
    (hpull : s.pull registry = ⟨item, next, reports⟩) (hitem : item ≠ .ended) (seen : List Item) :
    s.parts registry (fun _ => id) seen =
      ⟨s.rest.take (s.rest.length - next.rest.length), item, reports⟩ ::
        next.parts registry (fun _ => id) (seen ++ [item]) := by
  have hpull' : (s.mapModes ((fun _ => id : List Item → Modes → Modes) seen)).pull registry =
      ⟨item, next, reports⟩ := hpull
  rw [parts, hpull', if_neg hitem]

theorem Yields.parts (h : Yields registry s token place next) (seen : List Item) :
    ∃ seen', (s.parts registry (fun _ => id) seen).filterMap Part.token? =
        token :: (next.parts registry (fun _ => id) seen').filterMap Part.token? ∧
      ((∀ part ∈ next.parts registry (fun _ => id) seen', part.IsQuiet) →
        ∀ part ∈ s.parts registry (fun _ => id) seen, part.IsQuiet) := by
  induction h generalizing seen with
  | token hpull =>
      rw [parts_of_pull hpull (by rintro ⟨⟩)]
      exact ⟨_, rfl, fun hquiet => List.forall_mem_cons.2 ⟨⟨rfl, Or.inr rfl⟩, hquiet⟩⟩
  | blank hpull _ ih =>
      rw [parts_of_pull hpull (by rintro ⟨⟩)]
      obtain ⟨seen', htokens, hquiet⟩ := ih (seen ++ [.blank])
      exact ⟨seen', htokens, fun h => List.forall_mem_cons.2 ⟨⟨rfl, Or.inl rfl⟩, hquiet h⟩⟩

/-- What is shown is what reading to the end brings. -/
theorem Shows.parts {tokens : List Token} {final : Scanner} (h : Shows registry s tokens final)
    (hfinal : final.Fresh []) (seen : List Item) :
    (s.parts registry (fun _ => id) seen).filterMap Part.token? = tokens ∧
      ∀ part ∈ s.parts registry (fun _ => id) seen, part.IsQuiet := by
  induction h generalizing seen with
  | nil s =>
      rw [parts_of_rest_nil registry (fun _ => id) seen hfinal.pending hfinal.rest]
      exact ⟨rfl, by rintro _ ⟨⟩⟩
  | cons hyields _ ih =>
      obtain ⟨seen', htokens, hquiet⟩ := hyields.parts seen
      obtain ⟨hrest, hquiet'⟩ := ih hfinal seen'
      exact ⟨by rw [htokens, hrest], hquiet hquiet'⟩

/-- Tokens that are written out plainly are read again, each line with its end, and nothing is
reported. -/
theorem parts_render (hregistry : registry.Built) (lines : List (List Token))
    (hlines : ∀ line ∈ lines, Token.Renders registry line) :
    let parts := (ofText (Token.render registry lines)).parts registry (fun _ => id) []
    parts.filterMap Part.token? = lines.flatMap (· ++ [.special .newline]) ∧
      ∀ part ∈ parts, part.IsQuiet := by
  obtain ⟨final, hshows, hfinal⟩ := Fresh.shows_render (s := ofText (Token.render registry lines))
    hregistry hlines ⟨rfl, rfl, rfl⟩
  exact hshows.parts hfinal []

/-- Three lines with a word of the host, signs of two characters and a comparison; the second of
them is empty. -/
theorem parts_render_three :
    let registry : Registry :=
      ⟨-2, [("additem", -1)], [], [(-1, ⟨none, "c/l", 0x20010, some 0x20011, .three⟩)]⟩
    let lines : List (List Token) := [
      [.name "Player", .special .reference, .keyword (.extension (-1)), .name "gold",
        .special .comma,
        .int 10],
      [],
      [.keyword (.builtin .ifBlock), .special .opening, .name "x",
        .special (.comparison .lessOrEqual),
        .special .minus, .int 3, .special .closing]]
    Token.render registry lines = "Player -> additem gold , 10\n\nif ( x <= - 3 )\n" ∧
      ((ofText (Token.render registry lines)).parts registry (fun _ => id) []).filterMap
        Part.token? = lines.flatMap (· ++ [.special .newline]) ∧
      ∀ part ∈ (ofText (Token.render registry lines)).parts registry (fun _ => id) [],
        part.IsQuiet := by
  have hadd : Registry.addInstruction "AddItem" "c/l" 0x20010 (some 0x20011) {} =
      .ok () ⟨-2, [("additem", -1)], [],
        [(-1, ⟨none, "c/l", 0x20010, some 0x20011, .three⟩)]⟩ := rfl
  refine ⟨by decide, parts_render (.addInstruction .empty hadd) _ ?_⟩
  intro line hline
  simp only [List.mem_cons, List.not_mem_nil, or_false] at hline
  obtain rfl | rfl | rfl := hline
  · exact ⟨List.all_eq_true.1 (by decide), by rintro _ ⟨⟩; rfl, by simp [Token.IsComparison]⟩
  · exact ⟨by rintro _ ⟨⟩, by rintro _ ⟨⟩, .nil⟩
  · exact ⟨List.all_eq_true.1 (by decide), by rintro _ ⟨⟩; rfl, by simp [Token.IsComparison]⟩

end Scanner

end QuestScript
