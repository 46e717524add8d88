import Mathlib.Data.List.TakeWhile
import QuestScript.Session

/-!
# How far a lexeme reaches

A lexeme is a part of the text (`Lexeme.read_prefix_rest`), and what it is depends on nothing behind
the end of its line (`Lexeme.read_line`). The exception is a quoted text that may run over the ends
of lines: it reaches to its closing quote, or else to the end of the text (`Lexeme.read_append`).
-/

namespace QuestScript

/-- A property of the characters of a list can be computed. -/
theorem Text.forall_mem_of_all {P : Char → Prop} [DecidablePred P] {text : List Char}
    (h : (text.all fun c => decide (P c)) = true) : ∀ c ∈ text, P c := fun c hc =>
  of_decide_eq_true (List.all_eq_true.1 h c hc)

/-- The sign is neither a line end nor a comparison. -/
def Special.isSimple : Special → Bool
  | .newline | .comparison _ => false
  | _ => true

namespace Lexeme

variable {modes : Modes} {tolerant : Bool} {c : Char} {whole a b z rest : List Char}

/-! ### Lexemes are parts of the text -/

theorem name_run_prefix_rest (tolerant : Bool) (rest : List Char) :
    nameRun tolerant rest <+: rest := by
  induction rest with
  | nil => exact List.prefix_rfl
  | cons c rest ih =>
      unfold nameRun
      split
      · exact (List.prefix_cons_inj c).2 ih
      · exact List.nil_prefix

theorem read_quoted_prefix_rest (ignoreNewline : Bool) (rest : List Char) :
    (readQuoted ignoreNewline rest).2 <+: rest := by
  unfold readQuoted
  generalize (fun c => c != '"' && (ignoreNewline || c != '\n')) = inside
  dsimp only
  have hsplit := List.takeWhile_append_dropWhile (p := inside) (l := rest)
  split
  next more hdrop =>
    refine ⟨more, ?_⟩
    rw [List.append_assoc, List.singleton_append, ← hdrop, hsplit]
  · exact List.takeWhile_prefix _
  · exact List.takeWhile_prefix _

theorem read_fraction_prefix_rest (whole rest : List Char) :
    (readFraction whole rest).2 <+: rest := by
  unfold readFraction
  dsimp only
  split <;> exact List.takeWhile_prefix _

theorem read_number_prefix_rest (tolerant : Bool) (first : Char) (rest : List Char) :
    (readNumber tolerant first rest).2 <+: rest := by
  have hsplit := List.takeWhile_append_dropWhile (p := Char.isDigit) (l := rest)
  unfold readNumber
  dsimp only
  split
  · conv => rhs; rw [← hsplit]
    exact (List.prefix_append_right_inj _).2 (name_run_prefix_rest _ _)
  · split
    next more hdrop =>
      conv => rhs; rw [← hsplit, hdrop]
      exact (List.prefix_append_right_inj _).2
        ((List.prefix_cons_inj _).2 (read_fraction_prefix_rest _ _))
    · exact List.takeWhile_prefix _

theorem read_comparison_prefix_rest (first : Char) (rest : List Char) :
    (readComparison first rest).2 <+: rest := by
  unfold readComparison
  dsimp only
  split <;> exact List.takeWhile_prefix _

/-- What a special character starts. -/
theorem read_special_cases {P : Lexeme × List Char → Prop} (modes : Modes) (c : Char)
    (rest : List Char) (hnewline : c = '\n' → P (.sign .newline, []))
    (hstrays : P (.strays, rest.takeWhile (!endsStrays ·)))
    (hsign : ∀ special, special.isSimple = true → P (.sign special, []))
    (harrow : rest.head? = some '>' → P (.sign .reference, ['>']))
    (hfraction : P (readFraction [] rest))
    (hname : modes.expectName = true → P (.signedWord, nameRun true rest))
    (hcomparison : P (readComparison c rest)) (hunknown : P (.unknown, [])) :
    P (readSpecial modes c rest) := by
  have hite : ∀ (p : Prop) [Decidable p] (x y : Lexeme × List Char), (p → P x) → P y →
      P (if p then x else y) := by
    intro p _ x y hx hy
    split
    next hp => exact hx hp
    · exact hy
  unfold readSpecial
  refine hite _ _ _ hnewline (hite _ _ _ (fun _ => hstrays) ?_)
  refine hite _ _ _ (fun _ => hsign .opening rfl) (hite _ _ _ (fun _ => hsign .closing rfl) ?_)
  -- A point starts a number, a name or a member, and a hyphen an arrow, a name or a sign.
  refine hite _ _ _ (fun _ => hite _ _ _ (fun _ => hfraction)
    (hite _ _ _ hname (hsign .member rfl))) ?_
  refine hite _ _ _ (fun _ => hsign .comma rfl) ?_
  refine hite _ _ _ (fun _ => hite _ _ _ harrow (hite _ _ _ hname (hsign .minus rfl))) ?_
  refine hite _ _ _ (fun _ => hcomparison) (hite _ _ _ (fun _ => hsign .plus rfl) ?_)
  exact hite _ _ _ (fun _ => hsign .times rfl)
    (hite _ _ _ (fun _ => hsign .divided rfl) hunknown)

/-- What belongs to a lexeme that starts with a special character. -/
theorem read_special_text {P : List Char → Prop} (modes : Modes) (c : Char) (rest : List Char)
    (hnil : P []) (hstrays : P (rest.takeWhile (!endsStrays ·)))
    (harrow : rest.head? = some '>' → P ['>']) (hfraction : P (readFraction [] rest).2)
    (hname : P (nameRun true rest)) (hcomparison : P (readComparison c rest).2) :
    P (readSpecial modes c rest).2 :=
  read_special_cases (P := fun found => P found.2) modes c rest (fun _ => hnil) hstrays
    (fun _ _ => hnil) harrow hfraction (fun _ => hname) hcomparison hnil

theorem read_special_prefix_rest (modes : Modes) (c : Char) (rest : List Char) :
    (readSpecial modes c rest).2 <+: rest := by
  refine read_special_text (P := (· <+: rest)) modes c rest List.nil_prefix
    (List.takeWhile_prefix _) (fun harrow => ?_) (read_fraction_prefix_rest _ _)
    (name_run_prefix_rest _ _) (read_comparison_prefix_rest _ _)
  obtain ⟨more, rfl⟩ := List.head?_eq_some_iff.1 harrow
  exact ⟨more, rfl⟩

theorem read_prefix_rest (modes : Modes) (c : Char) (rest : List Char) :
    (read modes c rest).2 <+: rest := by
  unfold read
  split
  · exact List.takeWhile_prefix _
  · exact List.nil_prefix
  · split
    · exact read_quoted_prefix_rest _ _
    · exact name_run_prefix_rest _ _
  · split
    · exact name_run_prefix_rest _ _
    · exact read_number_prefix_rest _ _ _
  · exact read_special_prefix_rest _ _ _

/-! ### Lexemes end with their line -/

/-- The character ends a name, whatever comes behind it. -/
def isEdge (c : Char) : Bool :=
  !(isNameChar c || c == '.' || c == '-')

theorem continues_name_of_is_edge (h : isEdge c = true) (tolerant : Bool) (rest : List Char) :
    continuesName tolerant c rest = false := by
  unfold isEdge at h
  rw [Bool.not_eq_true', Bool.or_eq_false_iff, Bool.or_eq_false_iff] at h
  obtain ⟨⟨hname, hpoint⟩, hhyphen⟩ := h
  simp [continuesName, hname, hpoint, hhyphen]

theorem is_name_char_of_is_edge (h : isEdge c = true) : isNameChar c = false := by
  simpa using (Bool.or_eq_false_iff.1 (continues_name_of_is_edge h false [])).1

theorem take_while_edge {p : Char → Bool} (hp : p c = false) :
    (a ++ c :: b).takeWhile p = (a ++ c :: z).takeWhile p := by
  simp [List.takeWhile_append, hp]

theorem drop_while_edge {p : Char → Bool} (hp : p c = false) :
    (a ++ c :: b).dropWhile p = a.dropWhile p ++ c :: b := by
  rw [List.dropWhile_append]
  split
  next hempty =>
    rw [List.isEmpty_iff.1 hempty, List.dropWhile_cons, hp]
    rfl
  · rfl

theorem head?_edge : (a ++ c :: b).head? = (a ++ c :: z).head? := by
  cases a <;> rfl

theorem name_run_edge (hc : isEdge c = true) :
    nameRun tolerant (a ++ c :: b) = nameRun tolerant (a ++ c :: z) := by
  induction a with
  | nil =>
      simp [nameRun, continues_name_of_is_edge hc]
  | cons d a ih =>
      have hstop : continuesName tolerant d (a ++ c :: b) =
          continuesName tolerant d (a ++ c :: z) := by
        unfold continuesName
        rw [head?_edge]
      rw [List.cons_append, List.cons_append, nameRun, nameRun, hstop, ih]

theorem name_run_append_left {word : List Char} (hword : ∀ x ∈ word, isNameChar x = true)
    (rest : List Char) : nameRun tolerant (word ++ rest) = word ++ nameRun tolerant rest := by
  induction word with
  | nil => rfl
  | cons x word ih =>
      have hx : continuesName tolerant x (word ++ rest) = true := by
        rw [continuesName, hword x List.mem_cons_self]
        rfl
      rw [List.cons_append, nameRun, if_pos hx, ih fun y hy => hword y (List.mem_cons_of_mem x hy)]
      rfl

theorem name_run_append {word : List Char} (hword : ∀ x ∈ word, isNameChar x = true)
    (hc : continuesName tolerant c rest = false) : nameRun tolerant (word ++ c :: rest) = word := by
  rw [name_run_append_left hword, nameRun, hc]
  exact List.append_nil word

/-- What a quoted text is depends on how far it goes and on what comes then. -/
theorem read_quoted_congr {ignoreNewline : Bool} {rest rest' : List Char}
    (htake : rest.takeWhile (fun c => c != '"' && (ignoreNewline || c != '\n')) =
      rest'.takeWhile fun c => c != '"' && (ignoreNewline || c != '\n'))
    (hhead : (rest.dropWhile fun c => c != '"' && (ignoreNewline || c != '\n')).head? =
      (rest'.dropWhile fun c => c != '"' && (ignoreNewline || c != '\n')).head?) :
    readQuoted ignoreNewline rest = readQuoted ignoreNewline rest' := by
  unfold readQuoted
  dsimp only
  rw [htake]
  generalize rest.dropWhile _ = behind at hhead ⊢
  generalize rest'.dropWhile _ = behind' at hhead ⊢
  cases behind with
  | nil =>
      obtain rfl := List.head?_eq_none_iff.1 hhead.symm
      rfl
  | cons d more =>
      obtain ⟨more', rfl⟩ := List.head?_eq_some_iff.1 hhead.symm
      by_cases hquote : d = '"'
      · subst hquote
        rfl
      by_cases hnewline : d = '\n'
      · subst hnewline
        rfl
      split <;> simp_all

theorem read_quoted_line :
    readQuoted false (a ++ '\n' :: b) = readQuoted false (a ++ '\n' :: z) := by
  have hstop : ('\n' != '"' && (false || '\n' != '\n')) = false := by decide
  refine read_quoted_congr (take_while_edge hstop) ?_
  rw [drop_while_edge hstop, drop_while_edge hstop]
  exact head?_edge

theorem read_fraction_edge {d : Char} (hd : isEdge d = true) :
    readFraction whole (a ++ d :: b) = readFraction whole (a ++ d :: z) := by
  have hstop : (d.isDigit || Text.isAlphabetic d || d == '_') = false := by
    have hname := is_name_char_of_is_edge hd
    unfold isNameChar at hname
    simp_all
  unfold readFraction
  rw [take_while_edge hstop]

theorem read_number_edge {d : Char} (hd : isEdge d = true) :
    readNumber tolerant c (a ++ d :: b) = readNumber tolerant c (a ++ d :: z) := by
  have hstop : d.isDigit = false := by
    have hname := is_name_char_of_is_edge hd
    unfold isNameChar at hname
    simp_all
  unfold readNumber
  dsimp only
  rw [take_while_edge (z := z) hstop, drop_while_edge hstop, drop_while_edge hstop,
    head?_edge (z := z), name_run_edge (z := z) hd]
  split
  · rfl
  · cases a.dropWhile Char.isDigit with
    | nil =>
        have hpoint : d ≠ '.' := by
          rintro rfl
          cases hd
        split <;> simp_all
    | cons x more =>
        by_cases hx : x = '.'
        · subst hx
          have hfraction : ∀ whole, readFraction whole (more ++ d :: b) =
              readFraction whole (more ++ d :: z) := fun _ => read_fraction_edge hd
          show ((readFraction _ (more ++ d :: b)).1,
              _ ++ '.' :: (readFraction _ (more ++ d :: b)).2) =
            ((readFraction _ (more ++ d :: z)).1,
              _ ++ '.' :: (readFraction _ (more ++ d :: z)).2)
          rw [hfraction]
        · split <;> simp_all

theorem read_comparison_line :
    readComparison c (a ++ '\n' :: b) = readComparison c (a ++ '\n' :: z) := by
  unfold readComparison
  rw [take_while_edge (z := z) (by decide)]

theorem read_special_line :
    readSpecial modes c (a ++ '\n' :: b) = readSpecial modes c (a ++ '\n' :: z) := by
  have hstrays : (!endsStrays '\n') = false := by decide
  unfold readSpecial
  rw [take_while_edge (z := z) hstrays, head?_edge (z := z),
    read_fraction_edge (z := z) (by decide),
    name_run_edge (z := z) (by decide), read_comparison_line (z := z)]

/-- Nothing behind the end of its line matters to a lexeme, unless it is a quoted text that may run
over it. -/
theorem read_line (h : c = '"' → modes.ignoreNewline = false) :
    read modes c (a ++ '\n' :: b) = read modes c (a ++ '\n' :: z) := by
  unfold read
  split
  · rw [take_while_edge (by decide)]
  · rfl
  · split
    next hquote => rw [h hquote, read_quoted_line]
    · rw [name_run_edge (by decide)]
  · split
    · rw [name_run_edge (by decide)]
    · rw [read_number_edge (by decide)]
  · exact read_special_line

/-- A quoted text that may run over the ends of lines reaches to the next quote, or to the end of
all. -/
theorem read_quoted_append (hz : '"' ∉ z) :
    readQuoted true (rest ++ z) = readQuoted true rest ∨
      (readQuoted true (rest ++ z)).2 = rest ++ z := by
  by_cases hquote : '"' ∈ rest
  · left
    -- The quote stops both readings in front of `z`.
    have hdrop : (rest.dropWhile fun c => c != '"' && (true || c != '\n')) ≠ [] := by
      intro hnil
      have hall := List.dropWhile_eq_nil_iff.1 hnil '"' hquote
      simp at hall
    have htake : (rest.takeWhile fun c => c != '"' && (true || c != '\n')).length ≠
        rest.length := by
      have hsplit := congrArg List.length
        (List.takeWhile_append_dropWhile (p := fun c => c != '"' && (true || c != '\n'))
          (l := rest))
      have hpos := List.length_pos_iff.2 hdrop
      rw [List.length_append] at hsplit
      omega
    refine read_quoted_congr ?_ ?_
    · rw [List.takeWhile_append, if_neg htake]
    · rw [List.dropWhile_append, if_neg (by simpa using hdrop)]
      rw [List.head?_append, Option.or_of_isSome (by simpa using hdrop)]
  · right
    have hall : ∀ c ∈ rest ++ z, (c != '"' && (true || c != '\n')) = true := by
      intro c hc
      have hne : c ≠ '"' := by
        rintro rfl
        exact (List.mem_append.1 hc).elim hquote hz
      simpa using hne
    unfold readQuoted
    dsimp only
    rw [List.dropWhile_eq_nil_iff.2 hall]
    exact List.takeWhile_eq_self_iff.2 hall

/-- What is behind the line end of a text matters to a lexeme only if it is a quoted text that runs
to the end of all. -/
theorem read_append (hrest : '\n' ∈ rest) (hz : '"' ∉ z) :
    read modes c (rest ++ z) = read modes c rest ∨ (read modes c (rest ++ z)).2 = rest ++ z := by
  by_cases hquoted : c = '"' ∧ modes.ignoreNewline = true
  · obtain ⟨rfl, hignore⟩ := hquoted
    have hread : ∀ text, read modes '"' text = readQuoted true text := by
      intro text
      rw [← hignore]
      rfl
    rw [hread, hread]
    exact read_quoted_append hz
  · left
    obtain ⟨a, b, rfl⟩ := List.append_of_mem hrest
    rw [List.append_assoc, List.cons_append]
    refine read_line fun hquote => ?_
    exact Bool.eq_false_iff.2 fun hignore => hquoted ⟨hquote, hignore⟩

end Lexeme

/-! ### Spellings with and without quotes -/

theorem unquote_of_head {c : Char} (hc : c ≠ '"') (cs : List Char) :
    unquote (String.ofList (c :: cs)) = String.ofList (c :: cs) := by
  unfold unquote
  split
  next h =>
    rw [String.toList_ofList] at h
    cases h
    exact absurd rfl hc
  next => rfl

theorem unquote_closed (body : List Char) :
    unquote (String.ofList ('"' :: (body ++ ['"']))) = String.ofList body := by
  simp [unquote]

theorem Scanner.last_line_of_not_mem {text : List Char} (h : '\n' ∉ text) :
    lastLine text = text := by
  have hall : ∀ c ∈ text.reverse, (c != '\n') = true := by
    intro c hc
    simp only [bne_iff_ne]
    rintro rfl
    exact h (List.mem_reverse.1 hc)
  rw [lastLine, List.takeWhile_eq_self_iff.2 hall, List.reverse_reverse]

/-! ### Pulls -/

theorem Start.eq_of_blank {c : Char} (h : Start.of c = .blank) :
    c = ' ' ∨ c = '\t' ∨ c = ':' ∨ c = '\r' := by
  unfold Start.of at h
  split at h
  · exact absurd h (by decide)
  split at h
  next hblank => exact hblank
  split at h
  · exact absurd h (by decide)
  split at h <;> exact absurd h (by decide)

theorem Start.eq_of_comment {c : Char} (h : Start.of c = .comment) : c = ';' := by
  unfold Start.of at h
  split_ifs at h with hc
  exact hc

theorem Start.eq_of_word {c : Char} (h : Start.of c = .word) :
    Text.isAlphabetic c = true ∨ c = '_' ∨ c = '"' := by
  unfold Start.of at h
  split at h
  · cases h
  split at h
  · cases h
  split at h
  next hword => exact hword
  split at h <;> cases h

theorem Start.is_digit_of_digit {c : Char} (h : Start.of c = .digit) : c.isDigit = true := by
  unfold Start.of at h
  split_ifs at h with _ _ _ hdigit
  exact hdigit

namespace Scanner

variable {s : Scanner} {registry : Registry} {c : Char} {rest : List Char}

/-- If no token has been put back, a pull reads the next lexeme. -/
theorem pull_eq_settle (hpending : s.pending = none) (hrest : s.rest = c :: rest) :
    s.pull registry =
      ((s.mapModes (·.start (Start.of c))).pass (c :: (Lexeme.read s.modes c rest).2)).settle
        registry s.line (c :: (Lexeme.read s.modes c rest).2) (Lexeme.read s.modes c rest).1 := by
  simp only [pull, hpending, hrest]

theorem rest_pull (hpending : s.pending = none) (hrest : s.rest = c :: rest) :
    (s.pull registry).scanner.rest = rest.drop (Lexeme.read s.modes c rest).2.length := by
  rw [pull_eq_settle hpending hrest]
  obtain ⟨_, _, h⟩ := scanner_settle ((s.mapModes (·.start (Start.of c))).pass
    (c :: (Lexeme.read s.modes c rest).2)) registry s.line _ (Lexeme.read s.modes c rest).1
  rw [h]
  show s.rest.drop _ = _
  rw [hrest]
  rfl

theorem pass_of_not_mem {text : List Char} (s : Scanner) (h : '\n' ∉ text) :
    s.pass text =
      { s with rest := s.rest.drop text.length, column := s.column + text.length } := by
  simp [pass, h, List.count_eq_zero_of_not_mem h]

/-- A pull moves over a lexeme within its line. -/
theorem pull_of_read {more tail : List Char} {lexeme : Lexeme} (hpending : s.pending = none)
    (hrest : s.rest = c :: (more ++ tail))
    (hread : Lexeme.read s.modes c (more ++ tail) = (lexeme, more)) (hline : '\n' ∉ c :: more) :
    s.pull registry =
      ({ s with
        rest := tail
        column := s.column + (more.length + 1)
        modes := s.modes.start (Start.of c) } : Scanner).settle registry s.line (c :: more)
          lexeme := by
  have hdrop : s.rest.drop (c :: more).length = tail := by
    rw [hrest, ← List.cons_append, List.drop_left]
  rw [pull_eq_settle hpending hrest, hread, pass_of_not_mem _ hline]
  show Scanner.settle { s with
    rest := s.rest.drop (c :: more).length, column := s.column + (c :: more).length,
    modes := s.modes.start (Start.of c) } registry _ _ _ = _
  rw [hdrop]
  rfl

theorem pull_blank (hblank : Start.of c = .blank) (hpending : s.pending = none)
    (hrest : s.rest = c :: rest) :
    s.pull registry = ⟨.blank, { s with rest, column := s.column + 1 }, []⟩ := by
  have hline : '\n' ∉ [c] := by
    intro hmem
    rw [← List.mem_singleton.1 hmem] at hblank
    cases hblank
  have hread : Lexeme.read s.modes c ([] ++ rest) = (.blank, []) := by
    unfold Lexeme.read
    rw [hblank]
  rw [pull_of_read hpending hrest hread hline, hblank]
  rfl

theorem pull_comma (hpending : s.pending = none) (hrest : s.rest = ',' :: rest)
    (hspecial : s.modes.ignoreSpecial = false) :
    s.pull registry = ⟨.token (.special .comma) ⟨s.line, s.column + 1, String.ofList [',']⟩ none,
      { s with rest, column := s.column + 1, modes := s.modes.start .special, lineStart := false },
      []⟩ := by
  have hread : Lexeme.read s.modes ',' ([] ++ rest) = (.sign .comma, []) := by
    show Lexeme.readSpecial s.modes ',' rest = _
    simp [Lexeme.readSpecial, hspecial]
  rw [pull_of_read hpending hrest hread (by decide)]
  rfl

theorem pull_newline (hpending : s.pending = none) (hrest : s.rest = '\n' :: rest) :
    s.pull registry = ⟨.token (.special .newline) ⟨s.line + 1, 0, "<newline>"⟩ none,
      { s with rest, line := s.line + 1, column := 0, modes := {}, lineStart := true }, []⟩ := by
  rw [pull_eq_settle hpending hrest]
  obtain ⟨text, line, column, pending, modes, lineStart⟩ := s
  cases hrest
  rfl

/-- A word is delivered up to the first character that does not continue it. -/
theorem pull_word {word : List Char} {d : Char} (hpending : s.pending = none)
    (hrest : s.rest = c :: (word ++ d :: rest)) (hstart : Start.of c = .word) (hquote : c ≠ '"')
    (hword : ∀ x ∈ word, Lexeme.isNameChar x = true)
    (hd : Lexeme.continuesName s.modes.tolerantNames d rest = false) :
    s.pull registry =
      ({ s with
        rest := d :: rest
        column := s.column + (word.length + 1)
        modes := s.modes.start .word } : Scanner).deliverWord registry (String.ofList (c :: word))
          ⟨s.line, s.column + (word.length + 1), String.ofList (c :: word)⟩ := by
  have hrun : Lexeme.nameRun s.modes.tolerantNames (word ++ d :: rest) = word :=
    Lexeme.name_run_append hword hd
  have hread : Lexeme.read s.modes c (word ++ d :: rest) = (.word, word) := by
    unfold Lexeme.read
    rw [hstart]
    dsimp only
    rw [if_neg hquote, hrun]
  have hline : '\n' ∉ c :: word := by
    intro hmem
    obtain rfl | hmem := List.mem_cons.1 hmem
    · cases hstart
    · exact absurd (hword _ hmem) (by decide)
  rw [pull_of_read hpending hrest hread hline, hstart]
  rfl

end Scanner

namespace Session

variable {env : Environment} {s : Session} {item : Item} {scanner : Scanner}

theorem pull_of_reports {reports : List Report}
    (h : s.scanner.pull env.extensions = ⟨item, scanner, reports⟩) :
    s.pull env = (item, { s with scanner, log := reports.foldl Log.enter s.log }) := by
  unfold Session.pull
  rw [h]

theorem pull_of_quiet (h : s.scanner.pull env.extensions = ⟨item, scanner, []⟩) :
    s.pull env = (item, { s with scanner }) :=
  pull_of_reports h

end Session

end QuestScript
