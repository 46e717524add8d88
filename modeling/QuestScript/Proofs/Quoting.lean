import QuestScript.Proofs.Coupling.Body
import QuestScript.Proofs.Coupling.Scanners
import QuestScript.Proofs.Strays.Expression

/-!
# Names in quotes

A name may be written in quotes. Readers do not see the quotes as long as the scanner delivers a
name, since they look at the spelling of keywords and integers only. A keyword is another matter:
where it serves as a name most readers take its spelling, quotes and all (`to_in_quotes`), and
behind `messagebox` a text in quotes is never a keyword.

A text ends apart (`EndsApart`) if a word behind it is read in the same way whether it starts with a
quote or not. Behind such a text, scanners are in step whose texts differ in the quotes around a
name (`Scanner.Quoting.in_step`). That does not cover a member behind a point, because a point may
belong to a name. So readers are also compared from where they come to the name, with and without
quotes (`IgnoresQuotes`); from behind the name on they have the same text ahead.

The main statement is `quotes_unobservable`: quotes around a name that is no keyword make no
difference to a compilation, nor to a reader that comes to the name in any state, and quotes around
a keyword make none where an operand is due, unless the keyword structures statements.
-/

namespace QuestScript

/-! ### Texts that end between two lexemes -/

/-- Where one stands behind a text that is read from between two lexemes. -/
inductive Standing where
  | between
  | comment
  | quoted
  /-- Behind a line end in a quoted text. Whether it belongs to that text depends on the modes. -/
  | torn
  deriving DecidableEq

namespace Standing

/-- Where one stands a character later. -/
def next : Standing → Char → Standing
  | .between, c => if c = ';' then .comment else if c = '"' then .quoted else .between
  | .comment, c => if c = '\n' then .between else .comment
  | .quoted, c => if c = '"' then .between else if c = '\n' then .torn else .quoted
  | .torn, _ => .torn

theorem foldl_torn (text : List Char) : text.foldl next .torn = .torn := by
  induction text with
  | nil => rfl
  | cons c text ih => exact ih

theorem foldl_plain {text : List Char} (h : ∀ c ∈ text, IsPlain c) :
    text.foldl next .between = .between := by
  induction text with
  | nil => rfl
  | cons c text ih =>
      have hc := h c List.mem_cons_self
      rw [List.foldl_cons, next, if_neg hc.ne_semicolon, if_neg hc.ne_quote]
      exact ih fun x hx => h x (List.mem_cons_of_mem c hx)

/-- A comment that has ended did so at the end of its line. -/
theorem exists_of_comment {text : List Char} (h : text.foldl next .comment = .between) :
    ∃ line rest, text = line ++ '\n' :: rest ∧ '\n' ∉ line ∧
      rest.foldl next .between = .between := by
  induction text with
  | nil => cases h
  | cons c text ih =>
      rw [List.foldl_cons, next] at h
      by_cases hc : c = '\n'
      · rw [if_pos hc] at h
        exact ⟨[], text, by rw [hc]; rfl, List.not_mem_nil, h⟩
      · rw [if_neg hc] at h
        obtain ⟨line, rest, rfl, hline, hrest⟩ := ih h
        exact ⟨c :: line, rest, rfl, by simp [hline, Ne.symm hc], hrest⟩

/-- A quoted text that has ended did so at a quote on its line. -/
theorem exists_of_quoted {text : List Char} (h : text.foldl next .quoted = .between) :
    ∃ body rest, text = body ++ '"' :: rest ∧ '"' ∉ body ∧ '\n' ∉ body ∧
      rest.foldl next .between = .between := by
  induction text with
  | nil => cases h
  | cons c text ih =>
      rw [List.foldl_cons, next] at h
      by_cases hquote : c = '"'
      · rw [if_pos hquote] at h
        exact ⟨[], text, by rw [hquote]; rfl, List.not_mem_nil, List.not_mem_nil, h⟩
      rw [if_neg hquote] at h
      by_cases hline : c = '\n'
      · rw [if_pos hline, foldl_torn] at h
        cases h
      · rw [if_neg hline] at h
        obtain ⟨body, rest, rfl, hbody, hbody', hrest⟩ := ih h
        exact ⟨c :: body, rest, rfl, by simp [hbody, Ne.symm hquote],
          by simp [hbody', Ne.symm hline], hrest⟩

end Standing

/-- Behind the text a new lexeme starts with whatever starts a word: all comments and quoted texts
have ended, and the last character is an edge. -/
def EndsApart (text : List Char) : Prop :=
  text.foldl Standing.next .between = .between ∧ ∀ c ∈ text.getLast?, Lexeme.isEdge c = true

namespace Lexeme

variable {modes : Modes} {c w w' : Char} {front b z : List Char}

theorem is_name_char_of_start (hc : Start.of c = .word ∨ Start.of c = .digit) (hquote : c ≠ '"') :
    isNameChar c = true := by
  obtain hword | hdigit := hc
  · obtain halpha | rfl | hc := Start.eq_of_word hword
    · simp [isNameChar, halpha]
    · rfl
    · exact absurd hc hquote
  · simp [isNameChar, Start.is_digit_of_digit hdigit]

theorem ends_strays_of_word (hw : Start.of w = .word) : endsStrays w = true := by
  obtain halpha | rfl | rfl := Start.eq_of_word hw
  · simp [endsStrays, Text.isAlphanumeric, halpha]
  · rfl
  · rfl

theorem name_run_of_edge_ahead {text : List Char} (h : ∀ c ∈ text.head?, isEdge c = true)
    (tolerant : Bool) : nameRun tolerant text = [] := by
  cases text with
  | nil => rfl
  | cons c rest =>
      rw [nameRun, continues_name_of_is_edge (h c rfl)]
      rfl

/-- A run that is a part of two texts ends where they part. -/
theorem is_prefix_of_both {run : List Char} (hne : w ≠ w') (h : run <+: front ++ w :: b)
    (h' : run <+: front ++ w' :: z) : run <+: front := by
  induction front generalizing run with
  | nil =>
      cases run with
      | nil => exact List.prefix_rfl
      | cons x run =>
          exact absurd ((List.cons_prefix_cons.1 h).1.symm.trans (List.cons_prefix_cons.1 h').1) hne
  | cons x front ih =>
      cases run with
      | nil => exact List.nil_prefix
      | cons y run =>
          obtain ⟨rfl, hrun⟩ := List.cons_prefix_cons.1 h
          exact (List.prefix_cons_inj y).2 (ih hrun (List.cons_prefix_cons.1 h').2)

theorem read_comparison_word (hw : Start.of w = .word) (hw' : Start.of w' = .word) :
    readComparison c (front ++ w :: b) = readComparison c (front ++ w' :: z) := by
  have hstop : ∀ {d : Char}, Start.of d = .word →
      (d == '=' || d == '!' || d == '<' || d == '>' || isInnerBlank d) = false := by
    intro d hd
    by_contra hne
    rw [Bool.not_eq_false] at hne
    simp only [Bool.or_eq_true, beq_iff_eq, isInnerBlank] at hne
    rcases hne with (((rfl | rfl) | rfl) | rfl) | rfl | rfl <;> exact absurd hd (by decide)
  unfold readComparison
  rw [take_while_append_cons (hstop hw), take_while_append_cons (hstop hw')]

/-- What starts a word behind an edge does not matter to a lexeme that starts with a special
character. -/
theorem read_special_word (hw : Start.of w = .word) (hw' : Start.of w' = .word)
    (hedge : ∀ d ∈ (c :: front).getLast?, isEdge d = true) :
    readSpecial modes c (front ++ w :: b) = readSpecial modes c (front ++ w' :: z) := by
  have hstrays : (front ++ w :: b).takeWhile (!endsStrays ·) =
      (front ++ w' :: z).takeWhile (!endsStrays ·) := by
    rw [take_while_append_cons (by simp [ends_strays_of_word hw]),
      take_while_append_cons (by simp [ends_strays_of_word hw'])]
  have hcomparison : readComparison c (front ++ w :: b) = readComparison c (front ++ w' :: z) :=
    read_comparison_word hw hw'
  unfold readSpecial
  rw [hstrays, hcomparison]
  rcases List.eq_nil_or_concat' front with rfl | ⟨a, d, rfl⟩
  · -- The character itself is the edge.
    have hc : isEdge c = true := hedge c rfl
    have hpoint : c ≠ '.' := by
      rintro rfl
      cases hc
    have hhyphen : c ≠ '-' := by
      rintro rfl
      cases hc
    simp only [hpoint, hhyphen, if_false]
  · have hd : isEdge d = true := hedge d (by simp [List.getLast?_cons])
    simp only [List.append_assoc, List.singleton_append]
    rw [head?_edge (z := w' :: z), read_fraction_edge (z := w' :: z) hd,
      name_run_edge (z := w' :: z) hd]

end Lexeme

namespace EndsApart

variable {c : Char} {front : List Char}

/-- It does not matter to the next lexeme what word comes behind a text that ends apart. -/
theorem read_eq (h : EndsApart (c :: front)) (modes : Modes) {w w' : Char}
    (hw : Start.of w = .word) (hw' : Start.of w' = .word) (b z : List Char) :
    Lexeme.read modes c (front ++ w :: b) = Lexeme.read modes c (front ++ w' :: z) := by
  obtain ⟨hstanding, hedge⟩ := h
  -- A name character is no edge, so that there is one behind it.
  have hname (hc : Start.of c = .word ∨ Start.of c = .digit) (hquote : c ≠ '"') :
      ∃ a d, front = a ++ [d] ∧ Lexeme.isEdge d = true := by
    rcases List.eq_nil_or_concat' front with rfl | ⟨a, d, rfl⟩
    · have hc' := Lexeme.is_name_char_of_is_edge (hedge c rfl)
      cases hc'.symm.trans (Lexeme.is_name_char_of_start hc hquote)
    · exact ⟨a, d, rfl, hedge d (by simp [List.getLast?_cons])⟩
  unfold Lexeme.read
  cases hc : Start.of c with
  | comment =>
      obtain rfl := Start.eq_of_comment hc
      obtain ⟨line, rest, rfl, -, -⟩ := Standing.exists_of_comment hstanding
      simp only [List.append_assoc, List.cons_append]
      rw [Lexeme.take_while_edge (by decide)]
  | blank => rfl
  | word =>
      dsimp only
      by_cases hquote : c = '"'
      · subst hquote
        obtain ⟨body, rest, rfl, hbody, hline, -⟩ := Standing.exists_of_quoted hstanding
        rw [if_pos rfl, if_pos rfl, List.append_assoc, List.append_assoc, List.cons_append,
          List.cons_append, Lexeme.read_quoted_closed _ hbody hline,
          Lexeme.read_quoted_closed _ hbody hline]
      · obtain ⟨a, d, rfl, hd⟩ := hname (Or.inl hc) hquote
        rw [if_neg hquote, if_neg hquote, List.append_assoc, List.append_assoc]
        exact congrArg _ (Lexeme.name_run_edge hd)
  | digit =>
      obtain ⟨a, d, rfl, hd⟩ := hname (Or.inr hc) (by rintro rfl; cases hc)
      dsimp only
      rw [List.append_assoc, List.append_assoc, List.singleton_append, List.singleton_append,
        Lexeme.name_run_edge (z := w' :: z) hd, Lexeme.read_number_edge (z := w' :: z) hd]
  | special => exact Lexeme.read_special_word hw hw' hedge

theorem of_append (text : List Char) {rest : List Char} (h : EndsApart (text ++ rest))
    (hrest : rest.foldl Standing.next .between = .between) : EndsApart rest := by
  refine ⟨hrest, fun d hd => h.2 d ?_⟩
  rw [List.getLast?_append, show rest.getLast? = some d from hd]
  rfl

/-- The next lexeme belongs to the text, and what is left of the text ends apart again. -/
theorem exists_read (h : EndsApart (c :: front)) (modes : Modes) :
    ∃ lexeme run rest, front = run ++ rest ∧ EndsApart rest ∧ ∀ w b, Start.of w = .word →
      Lexeme.read modes c (front ++ w :: b) = (lexeme, run) := by
  have hread (w : Char) (b : List Char) (hw : Start.of w = .word) :
      Lexeme.read modes c (front ++ w :: b) = Lexeme.read modes c (front ++ ['"']) :=
    h.read_eq modes hw rfl b []
  -- What is read is the same in front of a quote and of a letter, so it cannot reach either.
  have hrun : (Lexeme.read modes c (front ++ ['"'])).2 <+: front := by
    have hquote := Lexeme.read_prefix_rest modes c (front ++ ['"'])
    have hother := Lexeme.read_prefix_rest modes c (front ++ ['_'])
    rw [hread '_' [] rfl] at hother
    exact Lexeme.is_prefix_of_both (by decide) hquote hother
  obtain ⟨rest, hfront⟩ := hrun
  refine ⟨_, _, rest, hfront.symm, ?_, hread⟩
  obtain ⟨hstanding, -⟩ := id h
  by_cases hplain : IsPlain c
  · -- The lexeme has no character that begins a comment or a quoted text.
    have hlexeme : (c :: (Lexeme.read modes c (front ++ ['"'])).2).foldl Standing.next .between =
        .between := by
      refine Standing.foldl_plain fun d hd => ?_
      obtain rfl | hd := List.mem_cons.1 hd
      · exact hplain
      · exact Lexeme.is_plain_of_mem_read hplain hd
    rw [← hfront, ← List.cons_append] at h hstanding
    refine of_append _ h ?_
    rwa [List.foldl_append, hlexeme] at hstanding
  obtain rfl | rfl | rfl : c = '\n' ∨ c = '"' ∨ c = ';' := by
    by_contra hc
    simp only [not_or] at hc
    exact hplain ⟨hc.1, hc.2.1, hc.2.2⟩
  · have hrun : (Lexeme.read modes '\n' (front ++ ['"'])).2 = [] := rfl
    rw [hrun, List.nil_append] at hfront
    subst hfront
    exact of_append ['\n'] h hstanding
  · obtain ⟨body, rest', rfl, hbody, hline, hrest⟩ := Standing.exists_of_quoted hstanding
    have hrun : (Lexeme.read modes '"' (body ++ '"' :: rest' ++ ['"'])).2 = body ++ ['"'] := by
      rw [List.append_assoc, List.cons_append]
      exact congrArg Prod.snd (Lexeme.read_quoted_closed _ hbody hline)
    rw [hrun, List.append_assoc, List.singleton_append] at hfront
    obtain rfl := List.cons.inj (List.append_cancel_left hfront) |>.2
    exact of_append ('"' :: (body ++ ['"'])) (by simpa using h) hrest
  · obtain ⟨line, rest', rfl, hline, hrest⟩ := Standing.exists_of_comment hstanding
    have hrun : (Lexeme.read modes ';' (line ++ '\n' :: rest' ++ ['"'])).2 = line := by
      show (line ++ '\n' :: rest' ++ ['"']).takeWhile (· != '\n') = line
      rw [List.append_assoc, List.cons_append, Lexeme.take_while_append_cons (by decide)]
      refine List.takeWhile_eq_self_iff.2 fun d hd => ?_
      simp only [bne_iff_ne, ne_eq]
      rintro rfl
      exact hline hd
    rw [hrun] at hfront
    obtain rfl := List.append_cancel_left hfront
    exact of_append (';' :: line) h hrest

end EndsApart

/-- The texts are the same, or the second has quotes around a name behind a text that ends apart. -/
def QuotedAhead (name after text text' : List Char) : Prop :=
  text' = text ∨ ∃ before, EndsApart before ∧ text = before ++ (name ++ after) ∧
    text' = before ++ '"' :: (name ++ '"' :: after)

/-! ### Scanners on a name with and without quotes -/

/-- The token that a word stands for. -/
def Registry.tokenOf (registry : Registry) (name : String) : Token :=
  match registry.keyword? (Text.toLower name) with
  | none => .name name
  | some word => .keyword word

/-- The modes behind a word. -/
def Registry.modesBehind (registry : Registry) (name : String) (modes : Modes) : Modes :=
  if registry.keyword? (Text.toLower name) = some (.builtin .messageBox) then
    { modes with ignoreNewline := true }
  else modes

namespace Scanner

variable {s t : Scanner} {registry : Registry} {c : Char} {more after : List Char}

theorem deliver_word_eq (s : Scanner) (registry : Registry) (name : String) (l : Location) :
    s.deliverWord registry name l = ⟨.token (registry.tokenOf name) l none,
      { s with modes := registry.modesBehind name s.modes, lineStart := false }, []⟩ := by
  unfold deliverWord Registry.tokenOf Registry.modesBehind
  cases registry.keyword? (Text.toLower name) with
  | none => rfl
  | some word =>
      by_cases hbox : word = .builtin .messageBox
      · simp only [hbox, if_true]
        rfl
      · simp only [hbox, Option.some.injEq, if_false]
        rfl

/-- A name that can be read as a word. -/
structure IsWord (c : Char) (more : List Char) : Prop where
  start : Start.of c = .word
  ne_quote : c ≠ '"'
  nameChars : ∀ x ∈ more, Lexeme.isNameChar x = true

theorem IsWord.is_plain (h : IsWord c more) : ∀ x ∈ c :: more, IsPlain x := by
  have hname : ∀ x ∈ c :: more, Lexeme.isNameChar x = true := by
    intro x hx
    obtain rfl | hx := List.mem_cons.1 hx
    · exact Lexeme.is_name_char_of_start (Or.inl h.start) h.ne_quote
    · exact h.nameChars x hx
  exact fun x hx => is_plain_of_class ⟨rfl, rfl, rfl⟩ (hname x hx)

theorem IsWord.not_mem (h : IsWord c more) : '"' ∉ c :: more ∧ '\n' ∉ c :: more :=
  ⟨fun hmem => (h.is_plain _ hmem).ne_quote rfl, fun hmem => (h.is_plain _ hmem).ne_newline rfl⟩

/-- What a scanner leaves behind a word. -/
def behindWord (s : Scanner) (registry : Registry) (name : String) (rest : List Char)
    (column : Nat) : Scanner :=
  { s with
    rest, column, modes := registry.modesBehind name (s.modes.start .word), lineStart := false }

theorem pull_plain (registry : Registry) (h : IsWord c more) (hpending : s.pending = none)
    (hrest : s.rest = c :: (more ++ after))
    (hafter : Lexeme.nameRun s.modes.tolerantNames after = []) :
    ∃ line column, s.pull registry =
      ⟨.token (registry.tokenOf (String.ofList (c :: more)))
          ⟨line, column, String.ofList (c :: more)⟩ none,
        s.behindWord registry (String.ofList (c :: more)) after column, []⟩ := by
  have hread : Lexeme.read s.modes c (more ++ after) = (.word, more) := by
    unfold Lexeme.read
    rw [h.start]
    dsimp only
    rw [if_neg h.ne_quote, Lexeme.name_run_append_left h.nameChars, hafter, List.append_nil]
  refine ⟨s.line, s.column + (more.length + 1), ?_⟩
  rw [pull_of_read hpending hrest hread h.not_mem.2, h.start]
  exact deliver_word_eq _ _ _ _

/-- Between quotes a word stands for the same, unless it is a keyword where quotes make a name of
it. -/
theorem pull_between_quotes (registry : Registry) (h : IsWord c more) (hpending : s.pending = none)
    (hrest : s.rest = '"' :: (c :: more ++ '"' :: after))
    (hname : s.modes.strictKeywords = false ∨
      registry.keyword? (Text.toLower (String.ofList (c :: more))) = none) :
    ∃ line column, s.pull registry =
      ⟨.token (registry.tokenOf (String.ofList (c :: more)))
          ⟨line, column, String.ofList ('"' :: (c :: more ++ ['"']))⟩ none,
        s.behindWord registry (String.ofList (c :: more)) after column, []⟩ := by
  obtain ⟨hquote, hline⟩ := h.not_mem
  have hrest' : s.rest = '"' :: ((c :: more ++ ['"']) ++ after) := by
    rw [hrest, List.append_assoc]
    rfl
  have hread : Lexeme.read s.modes '"' ((c :: more ++ ['"']) ++ after) =
      (.quoted (c :: more) true, c :: more ++ ['"']) := by
    rw [List.append_assoc]
    exact Lexeme.read_quoted_closed s.modes.ignoreNewline hquote hline
  have hline' : '\n' ∉ '"' :: (c :: more ++ ['"']) := by
    intro hmem
    simp only [List.mem_cons, List.mem_append] at hmem
    simp_all
  refine ⟨s.line, s.column + ((c :: more ++ ['"']).length + 1), ?_⟩
  rw [pull_of_read hpending hrest' hread hline', settle]
  have hreports : newlineReports s.line ('"' :: (c :: more ++ ['"'])) = [] := by
    rw [newlineReports, List.count_eq_zero_of_not_mem hline']
    rfl
  dsimp only
  rw [hreports, last_line_of_not_mem hline', Bool.true_and]
  split
  next hstrict =>
    -- In this mode quotes make a name of a keyword, so the word must not be one.
    have hnone := hname.resolve_left fun hfalse => by
      cases hfalse.symm.trans hstrict
    unfold behindWord Registry.tokenOf Registry.modesBehind
    rw [hnone]
    rfl
  · exact deliver_word_eq _ _ _ _

/-- The scanners are alike, and the texts ahead of them differ at most in the quotes around a
name. -/
abbrev Quoting (name after : List Char) (s t : Scanner) : Prop :=
  s.Beside Token.SpelledAlike (QuotedAhead name after) t

theorem Alongside.quoting (h : s.Alongside t) (name after : List Char) : s.Quoting name after t :=
  ⟨Or.inl h.rest, h.pending, h.modes, h.lineStart⟩

/-- Two scanners of which the second has quotes around the next word stand alongside behind it. -/
theorem alongside_behind_word {texts : List Char → List Char → Prop}
    (h : s.Beside Token.SpelledAlike texts t) (registry : Registry) (name : String)
    (rest : List Char) (column column' : Nat) :
    (s.behindWord registry name rest column).Alongside
      (t.behindWord registry name rest column') where
  rest := rfl
  pending := h.pending
  modes := by
    show registry.modesBehind name (t.modes.start .word) =
      registry.modesBehind name (s.modes.start .word)
    rw [h.modes]
  lineStart := rfl

/-- Scanners whose texts differ in the quotes around a name bring the same. -/
theorem Quoting.pull (hword : IsWord c more)
    (hkeyword : registry.keyword? (Text.toLower (String.ofList (c :: more))) = none)
    (hafter : ∀ d ∈ after.head?, Lexeme.isEdge d = true) (h : s.Quoting (c :: more) after t) :
    Beside.Brings Token.SpelledAlike (QuotedAhead (c :: more) after) (s.pull registry)
      (t.pull registry) := by
  by_cases hpending : s.pending = none
  · have hpending' := h.pending_eq_none hpending
    obtain hsame | ⟨before, happart, hrest, hrest'⟩ := h.rest
    · obtain ⟨hitem, hscanner, hreports⟩ := Alongside.pull (s := s) (t := t)
        ⟨hsame, h.pending, h.modes, h.lineStart⟩ registry
      exact ⟨hitem, Alongside.quoting hscanner _ _, hreports⟩
    cases before with
    | nil =>
        -- The name comes next.
        obtain ⟨line, column, hpull⟩ := pull_plain registry hword hpending hrest
          (Lexeme.name_run_of_edge_ahead hafter _)
        obtain ⟨line', column', hpull'⟩ := pull_between_quotes registry hword hpending' hrest'
          (Or.inr hkeyword)
        rw [hpull, hpull']
        refine ⟨.token _ _ ?_, Alongside.quoting (alongside_behind_word h _ _ _ _ _) _ _, .nil⟩
        rw [Registry.tokenOf, hkeyword]
        trivial
    | cons d front =>
        obtain ⟨lexeme, run, rest, rfl, hrun, hread⟩ := happart.exists_read s.modes
        have hplain := hread c (more ++ after) hword.start
        have hquoted := hread '"' (c :: more ++ '"' :: after) rfl
        replace hrest : s.rest = d :: (run ++ rest ++ c :: (more ++ after)) := hrest
        replace hrest' : t.rest = d :: (run ++ rest ++ '"' :: (c :: more ++ '"' :: after)) := hrest'
        refine h.pull_of_read (fun token _ _ => Token.SpelledSame.alike token) hpending hrest hrest'
          (hquoted.trans hplain.symm) ?_
        rw [hplain]
        refine Or.inr ⟨rest, hrun, ?_, ?_⟩
        · simp
        · simp
  · exact h.pull_of_pending hpending

theorem Quoting.in_step (hword : IsWord c more)
    (hkeyword : registry.keyword? (Text.toLower (String.ofList (c :: more))) = none)
    (hafter : ∀ d ∈ after.head?, Lexeme.isEdge d = true) :
    InStep registry (fun _ _ => True) (Quoting (c :: more) after) :=
  Beside.in_step (fun _ => trivial) (Quoting.pull hword hkeyword hafter)

end Scanner

/-! ### Compiling a name with and without quotes -/

/-- The compilations come to the same. Since the log was `log` they have recorded the same, up to
the places. -/
structure Compilation.Matches {α : Type} (log : Log) (made made' : Compilation α) : Prop where
  outcome : made'.outcome = made.outcome
  locals : made'.locals = made.locals
  log : Log.AlikeSince log log made.log made'.log

theorem Compilation.matches_of_ends {σ α : Type} {env : Environment} {log : Log}
    {spot : Location → Location → Prop} {scanners : Scanner → Scanner → Prop}
    {hscanners : Scanner.InStep env.extensions spot scanners} {ρ : σ → σ → Prop}
    {r r' : Result σ Unit}
    (h : (scannerCoupling env log log hscanners).Ends ρ Eq r r') {make : σ → Session → α}
    (hmake : ∀ p q s t, ρ p q → s.Paired scanners log log t → make q t = make p s) :
    (Compilation.ofResult r make).Matches log (Compilation.ofResult r' make) := by
  obtain ⟨houtcome, hreader, hsession⟩ := scanner_coupling_ends h
  refine ⟨?_, hsession.locals, hsession.log⟩
  unfold Compilation.ofResult
  rw [houtcome, hmake _ _ _ _ hreader hsession]

section Compile

variable {env : Environment} {c : Char} {more before after : List Char} {source source' : String}

/-- The coupling of runs on texts that differ in the quotes around a name. -/
def quotesCoupling (hword : Scanner.IsWord c more)
    (hkeyword : env.extensions.keyword? (Text.toLower (String.ofList (c :: more))) = none)
    (hafter : ∀ d ∈ after.head?, Lexeme.isEdge d = true) (log : Log) :
    ScanCoupling env fun l l' => l'.literal = l.literal :=
  scannerCoupling env log log (Scanner.Quoting.in_step hword hkeyword hafter)

/-- The sessions at the start of the two texts. -/
theorem Session.paired_start (h : QuotedAhead (c :: more) after source.toList source'.toList)
    (log : Log) (locals : Locals) :
    Session.Paired (Scanner.Quoting (c :: more) after) log log
      { scanner := Scanner.ofText source, log, locals }
      { scanner := Scanner.ofText source', log, locals } :=
  ⟨⟨h, .none, rfl, rfl⟩, rfl, rfl, .refl rfl rfl rfl⟩

variable (hword : Scanner.IsWord c more)
  (hkeyword : env.extensions.keyword? (Text.toLower (String.ofList (c :: more))) = none)
  (hafter : ∀ d ∈ after.head?, Lexeme.isEdge d = true) (log : Log)

include hword hkeyword hafter

theorem compile_script_matches (h : QuotedAhead (c :: more) after source.toList source'.toList) :
    (compileScript env source log).Matches log (compileScript env source' log) := by
  have hends := ScriptFile.scan_sim (C := quotesCoupling hword hkeyword hafter log)
    scanner_coupling_recovers scanner_coupling_tolerates {} {} _ _ (Nat.le_refl _) (Nat.le_refl _)
    (.refl _) (Session.paired_start h log {})
  unfold compileScript
  refine Compilation.matches_of_ends hends ?_
  rintro p _ s t ⟨_, rfl, rfl⟩ h
  rw [h.literals, h.locals]

theorem compile_console_matches
    (h : QuotedAhead (c :: more) after (source ++ "\n").toList (source' ++ "\n").toList)
    (locals : Locals) :
    (compileConsole env source log locals).Matches log (compileConsole env source' log locals) := by
  have hends := Body.scan_sim (C := quotesCoupling hword hkeyword hafter log)
    scanner_coupling_recovers scanner_coupling_tolerates false { ends := false }
    { ends := false } _ _
    (Nat.le_refl _) (Nat.le_refl _) ⟨rfl, rfl, rfl⟩ (Session.paired_start h log locals)
  unfold compileConsole
  refine Compilation.matches_of_ends hends ?_
  intro p q s t hbody h
  rw [hbody.code, h.literals, h.locals]

theorem scan_locals_matches (h : QuotedAhead (c :: more) after source.toList source'.toList) :
    (scanLocals env source log).Matches log (scanLocals env source' log) := by
  have hends := Outline.scan_sim (C := quotesCoupling hword hkeyword hafter log)
    scanner_coupling_recovers () () _ _ (Nat.le_refl _) (Nat.le_refl _) rfl
    (Session.paired_start h log {})
  unfold scanLocals
  exact Compilation.matches_of_ends hends fun _ _ _ _ _ h => h.locals

end Compile

/-! ### Readers that come to a name with or without quotes -/

/-- The coupling of sessions that have the same text ahead. -/
def aheadCoupling (env : Environment) (log : Log) :
    ScanCoupling env fun l l' => l'.literal = l.literal :=
  scannerCoupling env log log (Scanner.Alongside.in_step env.extensions)

section Ahead

variable {env : Environment} {s : Session} {c : Char} {more after : List Char}

theorem Registry.is_offered_token_of (registry : Registry) (name : String) :
    (registry.tokenOf name).IsOffered := by
  unfold tokenOf
  split
  · exact Token.is_offered_name _
  · exact Token.is_offered_keyword _

/-- Two readers that come to a name, the second of which has quotes around it. If they agree on what
the name stands for, they keep in step behind it. -/
theorem ends_of_quotes {σ : Type} {ρ : σ → σ → Prop} {n m : Nat} {mayEnd : σ → Bool}
    {feed : (k : Nat) → k < n → Token → Location → Reading k σ Verdict}
    {feed' : (k : Nat) → k < m → Token → Location → Reading k σ Verdict} {p : σ}
    (hword : Scanner.IsWord c more)
    (hname : s.scanner.modes.strictKeywords = false ∨
      env.extensions.keyword? (Text.toLower (String.ofList (c :: more))) = none)
    (hafter : Lexeme.nameRun s.scanner.modes.tolerantNames after = [])
    {hs : (s.ahead (c :: more ++ after)).unread ≤ n}
    {ht : (s.ahead ('"' :: (c :: more ++ '"' :: after))).unread ≤ m}
    (hscan : (aheadCoupling env s.log).Sim ρ Eq (Reading.scan env mayEnd feed)
      (Reading.scan env mayEnd feed'))
    (hfirst : ∀ s' t' hk hk' l l', l.literal = String.ofList (c :: more) →
      l'.literal = String.ofList ('"' :: (c :: more ++ ['"'])) →
      (aheadCoupling env s.log).rel s' t' →
      (aheadCoupling env s.log).Ends ρ ((aheadCoupling env s.log).Agrees l l')
        ((feed s'.unread hk (env.extensions.tokenOf (String.ofList (c :: more))) l).run p s'
          (Nat.le_refl _))
        ((feed' t'.unread hk' (env.extensions.tokenOf (String.ofList (c :: more))) l').run p t'
          (Nat.le_refl _))) :
    (aheadCoupling env s.log).Ends ρ Eq
      ((Reading.scan env mayEnd feed).run p (s.ahead (c :: more ++ after)) hs)
      ((Reading.scan env mayEnd feed').run p
        (s.ahead ('"' :: (c :: more ++ '"' :: after))) ht) := by
  obtain ⟨line, column, hpull⟩ := Scanner.pull_plain env.extensions
    (s := (s.ahead (c :: more ++ after)).scanner) hword rfl rfl hafter
  obtain ⟨line', column', hpull'⟩ := Scanner.pull_between_quotes env.extensions
    (s := (s.ahead ('"' :: (c :: more ++ '"' :: after))).scanner) hword rfl rfl hname
  refine .scan_from_of_tokens (Session.pull_of_quiet hpull) (Session.pull_of_quiet hpull')
    (env.extensions.is_offered_token_of _) (env.extensions.is_offered_token_of _) ?_ ?_
  · intro hk hk'
    refine hfirst _ _ hk hk' _ _ rfl rfl ⟨?_, rfl, rfl, .refl rfl rfl rfl⟩
    exact ⟨rfl, .none, rfl, rfl⟩
  · intro _ _ p' q' s₁ t₁ hs₁ ht₁ _ _ hp h₁ _
    exact hscan p' q' _ _ hs₁ ht₁ hp h₁

/-- A name that is no keyword is the same to a reader with quotes around it. -/
theorem ends_of_quoted_name {σ : Type} {ρ : σ → σ → Prop} {n m : Nat} {mayEnd : σ → Bool}
    {feed : (k : Nat) → k < n → Token → Location → Reading k σ Verdict}
    {feed' : (k : Nat) → k < m → Token → Location → Reading k σ Verdict} {p : σ} (hp : ρ p p)
    (hword : Scanner.IsWord c more)
    (hkeyword : env.extensions.keyword? (Text.toLower (String.ofList (c :: more))) = none)
    (hafter : Lexeme.nameRun s.scanner.modes.tolerantNames after = [])
    {hs : (s.ahead (c :: more ++ after)).unread ≤ n}
    {ht : (s.ahead ('"' :: (c :: more ++ '"' :: after))).unread ≤ m}
    (hscan : (aheadCoupling env s.log).Sim ρ Eq (Reading.scan env mayEnd feed)
      (Reading.scan env mayEnd feed'))
    (hfeed : ∀ k hk k' hk' token token' l l', token.Alike (aheadCoupling env s.log).texts token' →
      (aheadCoupling env s.log).At token l l' →
      (aheadCoupling env s.log).Sim ρ ((aheadCoupling env s.log).Agrees l l') (feed k hk token l)
        (feed' k' hk' token' l')) :
    (aheadCoupling env s.log).Ends ρ Eq
      ((Reading.scan env mayEnd feed).run p (s.ahead (c :: more ++ after)) hs)
      ((Reading.scan env mayEnd feed').run p
        (s.ahead ('"' :: (c :: more ++ '"' :: after))) ht) := by
  refine ends_of_quotes hword (Or.inr hkeyword) hafter hscan ?_
  intro s' t' hk hk' l l' _ _ hrel
  rw [Registry.tokenOf, hkeyword]
  exact hfeed _ hk _ hk' (.name _) _ l l' (.refl _ _) trivial p p s' t' _ _ hp hrel

end Ahead

/-! ### Keywords in quotes -/

/-- What holds of the value of an action on the left whatever happens. -/
theorem Coupling.Sim.and_meets {σ α : Type} {n m : Nat} {env : Environment}
    {place : Location → Location → Prop} {C : Coupling env place} {ρ : σ → σ → Prop}
    {V : α → α → Prop} {x : Reading n σ α} {y : Reading m σ α} {P : α → Prop} (hx : C.Sim ρ V x y)
    (hmeets : ∀ p, Reading.Yields x p fun a _ => P a) :
    C.Sim ρ (fun a b => V a b ∧ P a) x y := by
  intro p q s t hs ht hp hrel
  have hends := hx p q s t hs ht hp hrel
  have hadmits := hmeets p s hs
  generalize x.run p s hs = r at hends hadmits
  generalize y.run q t ht = r' at hends
  cases hends with
  | broken h => exact .broken h
  | ok hV hp hrel => exact .ok ⟨hV, hadmits⟩ hp hrel
  | stopped hstops hp hrel => exact .stopped hstops hp hrel

namespace Expression

variable {n m : Nat} {env : Environment} {place : Location → Location → Prop}
  {C : ScanCoupling env place} {l l' : Location} {p q : Expression} {s t : Session}
  {hs : s.unread ≤ n} {ht : t.unread ≤ m} {nested : Reading n Expression Unit}
  {nested' : Reading m Expression Unit} {stale : Prop}

/-- An expression that has been started does not hand anything back. -/
theorem run_refuse_of_started (token : Token) (h : p.progress.empty = false) :
    (refuse token l : Reading n Expression Verdict).run p s hs =
      (Reading.refuse token l : Reading n Expression Verdict).run p s hs := by
  unfold refuse
  rw [Reading.run_get_bind, Progress.refuse, h, Bool.and_false, if_neg Bool.false_ne_true]

/-- A function is called where an operand is due, however its keyword is spelled. -/
theorem feed_function_ends_of_operand (hread : C.ReadsCalls nested nested')
    (hp : AlikeUpTo C.spot stale p q) (hrel : C.rel s t) (hspot : C.spot l l')
    (hobject : p.object = "") (hoperand : p.nextOperand = true) (word : Keyword) :
    C.Ends (AlikeUpTo C.spot stale) (C.Agrees l l')
      ((feedFunction env nested word l : Reading n Expression Verdict).run p s hs)
      ((feedFunction env nested' word l' : Reading m Expression Verdict).run q t ht) := by
  obtain ⟨location, arrow, hlocation, harrow, rfl⟩ := hp
  have hstart : AlikeUpTo C.spot stale { p with first := false }
      { p with location, arrow, first := false } := ⟨location, arrow, hlocation, harrow, rfl⟩
  unfold feedFunction
  rw [Reading.run_modify_bind, Reading.run_modify_bind, Reading.run_get_bind, Reading.run_get_bind]
  dsimp only
  have hnone : ¬(!p.object.isEmpty) = true := by simp [hobject]
  have hdue : ¬(!p.nextOperand) = true := by simp [hoperand]
  rw [if_neg hnone, if_neg hdue, if_neg hnone, if_neg hdue]
  obtain hcall | hcall := calls_or_not env word
  · -- The expression has been started, so that the keyword is not handed back.
    rw [hcall, hcall]
    show C.Ends _ _
      ((refuse (.keyword word) l : Reading n Expression Verdict).run
        { p with first := false, progress := p.progress.start, location := l } s hs)
      ((refuse (.keyword word) l' : Reading m Expression Verdict).run
        { p with first := false, progress := p.progress.start, location := l', arrow } t ht)
    rw [run_refuse_of_started _ rfl, run_refuse_of_started _ rfl]
    exact Coupling.Sim.fail_at _ hspot _ _ _ _ _ _ ⟨l', arrow, hspot, harrow, rfl⟩ hrel
  · have hcalls : C.Sim (AlikeUpTo C.spot stale) _ (call env nested l word)
        (call env nested' l' word) := (call_sim hread word hspot).and_meets
      fun p => (hcall n nested l p).imp fun _ _ h => h.1
    refine Coupling.Sim.seq start_sim (fun _ => .seq (place_sim hspot) fun _ => .bind hcalls ?_)
      _ _ _ _ _ _ hstart hrel
    rintro _ _ ⟨rfl, rfl⟩
    exact .pure .more

/-- Where an operand is due, a keyword that does not structure statements is taken for the same
however it is spelled. -/
theorem feed_keyword_ends_of_operand (hread : C.ReadsCalls nested nested')
    (hp : AlikeUpTo C.spot stale p q) (hrel : C.rel s t) (hspot : C.spot l l')
    (hliteral : C.texts.rel (unquote l.literal) (unquote l'.literal)) (hobject : p.object = "")
    (hoperand : p.nextOperand = true) {word : Keyword} (hword : word.isStatement = false) :
    C.Ends (AlikeUpTo C.spot stale) (C.Agrees l l')
      ((feedKeyword env nested word l : Reading n Expression Verdict).run p s hs)
      ((feedKeyword env nested' word l' : Reading m Expression Verdict).run q t ht) := by
  have hfunction : C.Ends (AlikeUpTo C.spot stale) (C.Agrees l l')
      ((feedFunction env nested word l : Reading n Expression Verdict).run p s hs)
      ((feedFunction env nested' word l' : Reading m Expression Verdict).run q t ht) :=
    feed_function_ends_of_operand hread hp hrel hspot hobject hoperand word
  unfold feedKeyword
  cases word with
  | builtin word =>
      have hne : ¬word.isStatement = true := Bool.eq_false_iff.1 hword
      dsimp only
      rw [if_neg hne, if_neg hne]
      exact hfunction
  | extension code =>
      dsimp only
      split
      · exact feed_name_ends hp (fun _ => hobject) hrel hliteral hspot
      · exact hfunction

end Expression

/-! ### Names in quotes -/

/-- The text with quotes around it. -/
def inQuotes (name : String) : String :=
  "\"" ++ name ++ "\""

/-- The reader makes the same of the name with and without quotes in front of the given text. -/
def IgnoresQuotes {σ : Type} (ρ : σ → σ → Prop) (x : (n : Nat) → Reading n σ Unit) (p : σ)
    (s : Session) (name : String) (after : List Char) : Prop :=
  let result := Reading.runOn x p (s.ahead (name.toList ++ after))
  let result' := Reading.runOn x p (s.ahead ((inQuotes name).toList ++ after))
  result'.outcome = result.outcome ∧ ρ result.reader result'.reader ∧
    result.session.Paired Scanner.Alongside s.log s.log result'.session

section Names

variable {env : Environment} {name : String} {c : Char} {more : List Char}

theorem to_list_in_quotes (h : name.toList = c :: more) :
    (inQuotes name).toList = '"' :: (c :: more ++ ['"']) := by
  unfold inQuotes
  rw [String.toList_append, String.toList_append, h]
  rfl

theorem quoted_ahead_of_append {before : String} (hname : name.toList = c :: more)
    (hbefore : EndsApart before.toList) (after : String) :
    QuotedAhead (c :: more) after.toList (before ++ name ++ after).toList
      (before ++ inQuotes name ++ after).toList := by
  refine Or.inr ⟨before.toList, hbefore, ?_, ?_⟩
  · rw [String.toList_append, String.toList_append, hname, List.append_assoc]
  · rw [String.toList_append, String.toList_append, to_list_in_quotes hname, List.append_assoc,
      List.cons_append, List.append_assoc]
    rfl

/-- A reading that ends in step behind the name does not see the quotes. -/
theorem ignores_quotes_of_ends {σ : Type} {ρ ρ' : σ → σ → Prop} {x : (n : Nat) → Reading n σ Unit}
    {p : σ} {s : Session} {after : List Char} (hname : name.toList = c :: more)
    (h : (aheadCoupling env s.log).Ends ρ Eq (Reading.runOn x p (s.ahead (c :: more ++ after)))
      (Reading.runOn x p (s.ahead ('"' :: (c :: more ++ '"' :: after)))))
    (hreader : ∀ p q, ρ p q → ρ' p q) : IgnoresQuotes ρ' x p s name after := by
  obtain ⟨houtcome, hp, hsession⟩ := scanner_coupling_ends h
  have hquoted : (inQuotes name).toList ++ after = '"' :: (c :: more ++ '"' :: after) := by
    rw [to_list_in_quotes hname, List.cons_append, List.append_assoc]
    rfl
  unfold IgnoresQuotes
  rw [hname, hquoted]
  exact ⟨houtcome, hreader _ _ hp, hsession⟩

variable {s : Session} {after : List Char}

/-- An expression does not see the quotes around a name if what the name stands for is taken in step
with and without them. -/
theorem Expression.ignores_quotes_of_first {p : Expression} (hname : name.toList = c :: more)
    (hword : Scanner.IsWord c more)
    (hstrict : s.scanner.modes.strictKeywords = false ∨
      env.extensions.keyword? (Text.toLower (String.ofList (c :: more))) = none)
    (hafter : Lexeme.nameRun s.scanner.modes.tolerantNames after = [])
    (hfirst : ∀ k k' s' t' l l' hs ht, l.literal = String.ofList (c :: more) →
      l'.literal = String.ofList ('"' :: (c :: more ++ ['"'])) →
      (aheadCoupling env s.log).rel s' t' →
      (aheadCoupling env s.log).Ends (Alike fun _ _ => True)
        ((aheadCoupling env s.log).Agrees l l')
        ((feed env (scan env k) (env.extensions.tokenOf (String.ofList (c :: more))) l).run p s' hs)
        ((feed env (scan env k') (env.extensions.tokenOf (String.ofList (c :: more))) l').run p t'
          ht)) :
    IgnoresQuotes (Alike fun _ _ => True) (scan env) p s name after := by
  have hscan := scan_sim (C := aheadCoupling env s.log)
    (s.ahead (c :: more ++ after)).unread (s.ahead ('"' :: (c :: more ++ '"' :: after))).unread
  have hends : (aheadCoupling env s.log).Ends (Alike fun _ _ => True) Eq
      (Reading.runOn (scan env) p (s.ahead (c :: more ++ after)))
      (Reading.runOn (scan env) p (s.ahead ('"' :: (c :: more ++ '"' :: after)))) := by
    unfold Reading.runOn
    rw [scan, scan] at hscan ⊢
    exact ends_of_quotes hword hstrict hafter hscan fun s' t' hk hk' l l' =>
      hfirst _ _ s' t' l l' _ _
  exact ignores_quotes_of_ends hname hends fun _ _ => id

/-- The readers of declarations, statements, script files and expressions do not see the quotes
around a name that is no keyword. -/
structure ReadersIgnoreQuotes (env : Environment) (s : Session) (name : String)
    (after : List Char) : Prop where
  declaration : ∀ p, IgnoresQuotes Eq (fun _ => Declaration.scan env) p s name after
  statement : ∀ p, IgnoresQuotes Eq (fun _ => Statement.scan env) p s name after
  scriptFile : ∀ p, IgnoresQuotes Eq (fun _ => ScriptFile.scan env) p s name after
  expression : ∀ p,
    IgnoresQuotes (Expression.Alike fun _ _ => True) (Expression.scan env) p s name after

theorem readers_ignore_quotes (hname : name.toList = c :: more) (hword : Scanner.IsWord c more)
    (hkeyword : env.extensions.keyword? (Text.toLower name) = none)
    (hafter : Lexeme.nameRun s.scanner.modes.tolerantNames after = []) :
    ReadersIgnoreQuotes env s name after := by
  have hrecovers : (aheadCoupling env s.log).Recovers := scanner_coupling_recovers
  have htolerates : ∃ C', (aheadCoupling env s.log).Tolerates C' := scanner_coupling_tolerates
  rw [show name = String.ofList (c :: more) by rw [← hname, String.ofList_toList]] at hkeyword
  constructor
  · intro p
    exact ignores_quotes_of_ends hname (ends_of_quoted_name rfl hword hkeyword hafter
      (Declaration.scan_sim hrecovers) fun _ _ _ _ _ _ _ _ => Declaration.feed_sim hrecovers)
      fun _ _ => id
  · intro p
    refine ignores_quotes_of_ends hname (ends_of_quoted_name (.refl p) hword hkeyword hafter
      (Statement.scan_sim hrecovers htolerates) fun _ _ _ _ _ _ _ _ =>
        Statement.feed_sim hrecovers htolerates) ?_
    rintro p _ ⟨_, _, rfl, rfl | ⟨hstrict, -⟩, rfl, -⟩
    · rfl
    · exact hstrict.elim
  · intro p
    refine ignores_quotes_of_ends hname (ends_of_quoted_name (.refl p) hword hkeyword hafter
      (ScriptFile.scan_sim hrecovers htolerates) fun _ _ _ _ _ _ _ _ =>
        ScriptFile.feed_sim hrecovers htolerates) ?_
    rintro p _ ⟨_, rfl, rfl⟩
    rfl
  · intro p
    refine Expression.ignores_quotes_of_first hname hword (Or.inr hkeyword) hafter ?_
    intro k k' s' t' l l' hs ht _ _ hrel
    rw [Registry.tokenOf, hkeyword]
    exact Expression.feed_sim (C := aheadCoupling env s.log) (Expression.scan_sim k k')
      (.name rfl) trivial p p s' t' _ _ ⟨_, trivial, rfl⟩ hrel

/-- Where an operand is due, the quotes around a keyword are not seen if it does not structure
statements. -/
theorem Expression.ignores_quotes_of_keyword {p : Expression} {word : Keyword}
    (hname : name.toList = c :: more) (hword : Scanner.IsWord c more)
    (hkeyword : env.extensions.keyword? (Text.toLower name) = some word)
    (hstatement : word.isStatement = false) (hstrict : s.scanner.modes.strictKeywords = false)
    (hafter : Lexeme.nameRun s.scanner.modes.tolerantNames after = []) (hobject : p.object = "")
    (hoperand : p.nextOperand = true) :
    IgnoresQuotes (Alike fun _ _ => True) (scan env) p s name after := by
  rw [show name = String.ofList (c :: more) by rw [← hname, String.ofList_toList]] at hkeyword
  refine ignores_quotes_of_first hname hword (Or.inl hstrict) hafter ?_
  intro k k' s' t' l l' hs ht hl hl' hrel
  have hliteral : unquote l'.literal = unquote l.literal := by
    rw [hl, hl', unquote_of_head hword.ne_quote, unquote_closed]
  rw [Registry.tokenOf, hkeyword, alike_eq]
  exact feed_keyword_ends_of_operand (C := aheadCoupling env s.log) (reads_calls (scan_sim k k'))
    ⟨_, _, trivial, Or.inr rfl, rfl⟩ hrel trivial hliteral hobject hoperand hstatement

end Names

/-- The three ways to compile a text make the same of the second text as of the first. -/
structure CompilesAlike (env : Environment) (source source' : String) : Prop where
  script : ∀ log, (compileScript env source log).Matches log (compileScript env source' log)
  console : ∀ log locals, (compileConsole env source log locals).Matches log
    (compileConsole env source' log locals)
  locals : ∀ log, (scanLocals env source log).Matches log (scanLocals env source' log)

theorem compiles_alike_in_quotes {env : Environment} {name before after : String} {c : Char}
    {more : List Char} (hname : name.toList = c :: more) (hword : Scanner.IsWord c more)
    (hkeyword : env.extensions.keyword? (Text.toLower name) = none)
    (hbefore : EndsApart before.toList)
    (hafter : ∀ d ∈ after.toList.head?, Lexeme.isEdge d = true) :
    CompilesAlike env (before ++ name ++ after) (before ++ inQuotes name ++ after) := by
  have hahead := quoted_ahead_of_append hname hbefore
  rw [show name = String.ofList (c :: more) by rw [← hname, String.ofList_toList]] at hkeyword
  refine ⟨fun log => compile_script_matches hword hkeyword hafter log (hahead after), ?_,
    fun log => scan_locals_matches hword hkeyword hafter log (hahead after)⟩
  -- In the console a line end is added behind the text.
  intro log locals
  have hafter' : ∀ d ∈ (after ++ "\n").toList.head?, Lexeme.isEdge d = true := by
    rw [String.toList_append]
    cases htext : after.toList with
    | nil =>
        rintro _ ⟨⟩
        rfl
    | cons d rest =>
        rw [htext] at hafter
        exact hafter
  refine compile_console_matches hword hkeyword hafter' log ?_ locals
  have hassoc (text : String) : before ++ text ++ after ++ "\n" =
      before ++ text ++ (after ++ "\n") := String.append_assoc
  rw [hassoc, hassoc]
  exact hahead (after ++ "\n")

/-- Quotes around a name make no difference, unless the name is a keyword. -/
theorem quotes_unobservable (env : Environment) (name : String)
    (hname : Text.isIdentifier name = true) :
    (env.extensions.keyword? (Text.toLower name) = none →
      (∀ before after : String, EndsApart before.toList →
        (∀ d ∈ after.toList.head?, Lexeme.isEdge d = true) →
        CompilesAlike env (before ++ name ++ after) (before ++ inQuotes name ++ after)) ∧
      ∀ (s : Session) (after : List Char),
        Lexeme.nameRun s.scanner.modes.tolerantNames after = [] →
        ReadersIgnoreQuotes env s name after) ∧
    ∀ word, env.extensions.keyword? (Text.toLower name) = some word → word.isStatement = false →
      ∀ (p : Expression) (s : Session) (after : List Char), p.object = "" → p.nextOperand = true →
        s.scanner.modes.strictKeywords = false →
        Lexeme.nameRun s.scanner.modes.tolerantNames after = [] →
        IgnoresQuotes (Expression.Alike fun _ _ => True) (Expression.scan env) p s name after := by
  obtain ⟨c, more, hchars, hstart, hquote, hmore⟩ := Text.exists_cons_of_is_identifier hname
  have hword : Scanner.IsWord c more := ⟨hstart, hquote, hmore⟩
  refine ⟨fun hkeyword => ⟨fun before after => ?_, fun s after => ?_⟩, ?_⟩
  · exact compiles_alike_in_quotes hchars hword hkeyword
  · exact readers_ignore_quotes hchars hword hkeyword
  · intro word hkeyword hstatement p s after hobject hoperand hstrict hafter
    exact Expression.ignores_quotes_of_keyword hchars hword hkeyword hstatement hstrict hafter
      hobject
      hoperand

/-- Quotes around the name of a variable, around a member behind a point and around the keyword of a
function. -/
theorem gold_in_quotes :
    CompilesAlike {} ("begin x ; it \"is\n  short " ++ "gold" ++ "\nend\n")
        ("begin x ; it \"is\n  short " ++ inQuotes "gold" ++ "\nend\n") ∧
      ReadersIgnoreQuotes {} { scanner := Scanner.ofText "" } "gold" ".x to 1\n".toList ∧
      IgnoresQuotes (Expression.Alike fun _ _ => True) (Expression.scan {}) {}
        { scanner := Scanner.ofText "" } "Random" "(5)\n".toList := by
  have hgold := (quotes_unobservable {} "gold" (by decide)).1 (by decide)
  have hrandom := (quotes_unobservable {} "Random" (by decide)).2
  have hbefore : EndsApart "begin x ; it \"is\n  short ".toList := by
    refine ⟨by decide, ?_⟩
    rw [show "begin x ; it \"is\n  short ".toList.getLast? = some ' ' by decide]
    rintro _ ⟨⟩
    rfl
  have hafter : ∀ d ∈ "\nend\n".toList.head?, Lexeme.isEdge d = true := by
    rw [show "\nend\n".toList.head? = some '\n' by decide]
    rintro _ ⟨⟩
    rfl
  exact ⟨hgold.1 _ _ hbefore hafter, hgold.2 _ _ (by decide),
    hrandom (.builtin .random) (by decide) rfl _ _ _ rfl rfl rfl (by decide)⟩

/-- A keyword can be the name of a local variable. In quotes it is a different name, to which the
quotes belong. -/
theorem to_in_quotes :
    (compileScript {} "begin x\nshort to\nend\n" {}).locals = { shorts := ["to"] } ∧
      (compileScript {} "begin x\nshort \"to\"\nend\n" {}).locals =
        { shorts := ["\"to\""] } := by
  decide +kernel

end QuestScript
