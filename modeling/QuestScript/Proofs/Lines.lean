import QuestScript.Proofs.Lexemes
import QuestScript.Proofs.Logging

/-!
# Quotes on a line

How a line is cut into lexemes depends on the modes, but where quoted texts and comments stand on
it does not: a quote or a semicolon never belongs to a lexeme of another kind
(`Lexeme.is_plain_of_mem_read`). So two scanners on the same line agree about whether all quoted
texts are closed on it, whatever modes they read it in (`Scanner.sameLine_pull`). A scanner that
comes to a quoted text which is not closed on its line either reports that or comes to the end of
all.

At the end of the module is what a pull does to the modes for names.
-/

namespace QuestScript

/-! ### Lines -/

/-- The part of a text in front of its first line end. -/
def lineOf (text : List Char) : List Char :=
  text.takeWhile (· != '\n')

/-- The part of a text from its first line end on. -/
def behindLine (text : List Char) : List Char :=
  text.dropWhile (· != '\n')

/-- The quoted texts of a line are closed on it. What is inside of a comment does not matter. -/
def closes (inside : Bool) : List Char → Bool
  | [] => !inside
  | c :: rest =>
    if c = '"' then closes (!inside) rest
    else if c = ';' ∧ inside = false then true
    else closes inside rest

section Lines

variable {a b text : List Char}

theorem line_of_append_behind_line (text : List Char) : lineOf text ++ behindLine text = text :=
  List.takeWhile_append_dropWhile

theorem newline_not_mem_line_of (text : List Char) : '\n' ∉ lineOf text := by
  intro h
  have hne := List.mem_takeWhile_imp h
  cases hne

theorem line_of_append (h : '\n' ∉ a) : lineOf (a ++ b) = a ++ lineOf b := by
  refine List.takeWhile_append_of_pos fun c hc => ?_
  rw [bne_iff_ne]
  rintro rfl
  exact h hc

/-- Behind a line is the end of it, or the end of all. -/
theorem behind_line_cases (text : List Char) :
    behindLine text = [] ∨ ∃ rest, behindLine text = '\n' :: rest := by
  cases h : behindLine text with
  | nil => exact Or.inl rfl
  | cons c rest =>
      have hc := List.head_dropWhile_not (· != '\n') (l := text) (by
        rw [show text.dropWhile (· != '\n') = c :: rest from h]
        exact List.cons_ne_nil _ _)
      simp only [show text.dropWhile (· != '\n') = c :: rest from h, List.head_cons] at hc
      obtain rfl : c = '\n' := by simpa using hc
      exact Or.inr ⟨rest, rfl⟩

theorem line_of_behind_line (text : List Char) : lineOf (behindLine text) = [] := by
  obtain h | ⟨rest, h⟩ := behind_line_cases text
  · rw [h]
    rfl
  · rw [h]
    rfl

theorem drop_length_of_append (h : a ++ b = text) : text.drop a.length = b := by
  rw [← h]
  exact List.drop_left

theorem closes_of_plain (h : ∀ c ∈ a, c ≠ '"' ∧ c ≠ ';') :
    closes false (a ++ b) = closes false b := by
  induction a with
  | nil => rfl
  | cons c a ih =>
      obtain ⟨hquote, hcomment⟩ := h c List.mem_cons_self
      rw [List.cons_append, closes, if_neg hquote, if_neg (fun hc => hcomment hc.1)]
      exact ih fun x hx => h x (List.mem_cons_of_mem c hx)

theorem closes_inside (h : '"' ∉ a) : closes true (a ++ b) = closes true b := by
  induction a with
  | nil => rfl
  | cons c a ih =>
      have hquote : c ≠ '"' := by
        rintro rfl
        exact h List.mem_cons_self
      rw [List.cons_append, closes, if_neg hquote, if_neg (by rintro ⟨-, ⟨⟩⟩)]
      exact ih fun hmem => h (List.mem_cons_of_mem c hmem)

end Lines

/-! ### Lexemes on a line -/

/-- The character is neither a line end nor the start of a quoted text or a comment. -/
structure IsPlain (c : Char) : Prop where
  ne_newline : c ≠ '\n'
  ne_quote : c ≠ '"'
  ne_semicolon : c ≠ ';'

theorem is_plain_of_class {p : Char → Bool} {c : Char}
    (hp : p '\n' = false ∧ p '"' = false ∧ p ';' = false) (h : p c = true) : IsPlain c := by
  obtain ⟨hnewline, hquote, hsemicolon⟩ := hp
  refine ⟨?_, ?_, ?_⟩
  · rintro rfl
    rw [hnewline] at h
    cases h
  · rintro rfl
    rw [hquote] at h
    cases h
  · rintro rfl
    rw [hsemicolon] at h
    cases h

namespace Lexeme

variable {modes : Modes} {tolerant : Bool} {c x : Char} {whole body rest : List Char}

theorem is_plain_of_mem_take_while {p : Char → Bool} (h : x ∈ rest.takeWhile p)
    (hp : p '\n' = false ∧ p '"' = false ∧ p ';' = false) : IsPlain x :=
  is_plain_of_class hp (List.mem_takeWhile_imp h)

theorem is_plain_of_mem_name_run (h : x ∈ nameRun tolerant rest) : IsPlain x := by
  induction rest with
  | nil => cases h
  | cons c rest ih =>
      unfold nameRun at h
      split at h
      next hcontinues =>
        rcases List.mem_cons.1 h with rfl | h
        · refine is_plain_of_class (p := fun c => isNameChar c || c == '-' || c == '.')
            (by decide) ?_
          revert hcontinues
          simp only [continuesName, Bool.or_eq_true, Bool.and_eq_true]
          rintro ((hname | ⟨hhyphen, -⟩) | ⟨-, hpoint | hhyphen⟩)
          · exact Or.inl (Or.inl hname)
          · exact Or.inl (Or.inr hhyphen)
          · exact Or.inr hpoint
          · exact Or.inl (Or.inr hhyphen)
        · exact ih h
      · cases h

theorem is_plain_of_mem_read_fraction (h : x ∈ (readFraction whole rest).2) : IsPlain x := by
  have hmem : x ∈ rest.takeWhile fun c => c.isDigit || Text.isAlphabetic c || c == '_' := by
    unfold readFraction at h
    dsimp only at h
    split at h <;> exact h
  exact is_plain_of_mem_take_while hmem (by decide)

theorem is_plain_of_mem_read_number (h : x ∈ (readNumber tolerant c rest).2) : IsPlain x := by
  have hdigits : x ∈ rest.takeWhile Char.isDigit → IsPlain x := fun hmem =>
    is_plain_of_mem_take_while hmem (by decide)
  unfold readNumber at h
  dsimp only at h
  split at h
  · rcases List.mem_append.1 h with h | h
    · exact hdigits h
    · exact is_plain_of_mem_name_run h
  · split at h
    · rcases List.mem_append.1 h with h | h
      · exact hdigits h
      · rcases List.mem_cons.1 h with rfl | h
        · exact ⟨by decide, by decide, by decide⟩
        · exact is_plain_of_mem_read_fraction h
    · exact hdigits h

theorem is_plain_of_mem_read_comparison (h : x ∈ (readComparison c rest).2) : IsPlain x := by
  have hmem : x ∈ rest.takeWhile fun c =>
      c == '=' || c == '!' || c == '<' || c == '>' || isInnerBlank c := by
    unfold readComparison at h
    dsimp only at h
    split at h <;> exact h
  exact is_plain_of_mem_take_while hmem (by decide)

theorem is_plain_of_mem_read_special (h : x ∈ (readSpecial modes c rest).2) : IsPlain x := by
  refine read_special_text (P := fun text => x ∈ text → IsPlain x) modes c rest ?_ ?_ ?_
    is_plain_of_mem_read_fraction is_plain_of_mem_name_run is_plain_of_mem_read_comparison h
  · rintro ⟨⟩
  · exact fun hmem => is_plain_of_mem_take_while hmem (by decide)
  · rintro - hmem
    rw [List.mem_singleton.1 hmem]
    exact ⟨by decide, by decide, by decide⟩

/-- In a lexeme that is neither a comment nor quoted there is no line end, no quote and no
semicolon. -/
theorem is_plain_of_mem_read (hc : IsPlain c) (h : x ∈ (read modes c rest).2) : IsPlain x := by
  unfold read at h
  split at h
  next hstart =>
    unfold Start.of at hstart
    rw [if_neg hc.ne_semicolon] at hstart
    split_ifs at hstart
  · cases h
  · rw [if_neg hc.ne_quote] at h
    exact is_plain_of_mem_name_run h
  · split at h
    · exact is_plain_of_mem_name_run h
    · exact is_plain_of_mem_read_number h
  · exact is_plain_of_mem_read_special h

/-- A quoted text that is closed on its line is read up to its second quote in every mode. -/
theorem read_quoted_closed (ignoreNewline : Bool) (hquote : '"' ∉ body) (hline : '\n' ∉ body) :
    readQuoted ignoreNewline (body ++ '"' :: rest) = (.quoted body true, body ++ ['"']) := by
  have hinside : ∀ c ∈ body, (c != '"' && (ignoreNewline || c != '\n')) = true := by
    intro c hc
    have hne : c ≠ '"' ∧ c ≠ '\n' := ⟨fun h => hquote (h ▸ hc), fun h => hline (h ▸ hc)⟩
    simp [hne.1, hne.2]
  unfold readQuoted
  dsimp only
  rw [List.takeWhile_append_of_pos hinside, List.dropWhile_append_of_pos hinside]
  simp

/-- What a quoted text is that is not closed on its line. -/
inductive IsOpen (rest : List Char) : Lexeme × List Char → Prop where
  | stray (text : List Char) : IsOpen rest (.strayQuote, text)
  | broken (text : List Char) : IsOpen rest (.openQuote, text)
  | crosses {body : List Char} {closed : Bool} {text : List Char} (hline : '\n' ∈ text) :
      IsOpen rest (.quoted body closed, text)
  | all {body : List Char} {closed : Bool} : IsOpen rest (.quoted body closed, rest)

theorem is_open_read_quoted (ignoreNewline : Bool) (hquote : '"' ∉ lineOf rest) :
    IsOpen rest (readQuoted ignoreNewline rest) := by
  have hline : ∀ c ∈ lineOf rest, (c != '"' && (ignoreNewline || c != '\n')) = true := by
    intro c hc
    have hne : c ≠ '"' ∧ c ≠ '\n' :=
      ⟨fun h => hquote (h ▸ hc), fun h => newline_not_mem_line_of rest (h ▸ hc)⟩
    simp [hne.1, hne.2]
  have hsplit := line_of_append_behind_line rest
  obtain hbehind | ⟨more, hbehind⟩ := behind_line_cases rest
  · -- The text ends with the line.
    rw [hbehind, List.append_nil] at hsplit
    rw [hsplit] at hline
    have hread : readQuoted ignoreNewline rest = (.quoted rest false, rest) := by
      unfold readQuoted
      dsimp only
      rw [List.takeWhile_eq_self_iff.2 hline, List.dropWhile_eq_nil_iff.2 hline]
    rw [hread]
    exact .all
  · rw [hbehind] at hsplit
    cases ignoreNewline with
    | false =>
        have hread : readQuoted false rest =
            (if isBlankLine (lineOf rest) then .strayQuote else .openQuote, lineOf rest) := by
          unfold readQuoted
          dsimp only
          rw [← hsplit, List.takeWhile_append_of_pos hline, List.dropWhile_append_of_pos hline,
            hsplit]
          simp
        rw [hread]
        split
        · exact .stray _
        · exact .broken _
    | true =>
        -- Line ends are part of the text, which goes on behind the line.
        have hmem : '\n' ∈ rest.takeWhile fun c => c != '"' && (true || c != '\n') := by
          rw [← hsplit, List.takeWhile_append_of_pos hline,
            List.takeWhile_cons_of_pos (by decide)]
          exact List.mem_append_right _ List.mem_cons_self
        unfold readQuoted
        dsimp only
        split
        · exact .crosses (List.mem_append_left _ hmem)
        · split
          · exact .stray _
          · exact .broken _
        · exact .crosses hmem

/-- A lexeme stays on its line and leaves the quotes behind it as they are, or it is a quoted text
that is not closed on the line. -/
theorem read_cases (modes : Modes) (rest : List Char) (hc : c ≠ '\n') :
    '\n' ∉ c :: (read modes c rest).2 ∧
        closes false (lineOf (rest.drop (read modes c rest).2.length)) =
          closes false (lineOf (c :: rest)) ∨
      c = '"' ∧ closes false (lineOf (c :: rest)) = false ∧ IsOpen rest (read modes c rest) := by
  have hcons : lineOf (c :: rest) = c :: lineOf rest :=
    line_of_append (a := [c]) fun h => hc (List.mem_singleton.1 h).symm
  -- Only a quote can begin a lexeme that leaves the line. A comment ends with the line, and all
  -- other lexemes have neither quotes nor line ends in them.
  by_cases hquote : c = '"'
  · subst hquote
    have hread : read modes '"' rest = readQuoted modes.ignoreNewline rest := rfl
    rw [hread, hcons]
    by_cases hmem : '"' ∈ lineOf rest
    · left
      obtain ⟨body, line, hsplit, hbody⟩ := List.eq_append_cons_of_mem hmem
      have hline : '\n' ∉ body := fun h =>
        newline_not_mem_line_of rest (hsplit ▸ List.mem_append_left _ h)
      have hrest : rest = body ++ '"' :: (line ++ behindLine rest) := by
        have hwhole := (line_of_append_behind_line rest).symm
        rw [hsplit, List.append_assoc] at hwhole
        exact hwhole
      have hdrop : rest.drop (body ++ ['"']).length = line ++ behindLine rest :=
        drop_length_of_append (by rw [List.append_assoc]; exact hrest.symm)
      have hbehind : lineOf (line ++ behindLine rest) = line := by
        have hnewline : '\n' ∉ line := fun h => newline_not_mem_line_of rest
          (hsplit ▸ List.mem_append_right _ (List.mem_cons_of_mem _ h))
        rw [line_of_append hnewline, line_of_behind_line, List.append_nil]
      have hclosed : readQuoted modes.ignoreNewline rest =
          (.quoted body true, body ++ ['"']) := by
        rw [hrest]
        exact read_quoted_closed _ hbody hline
      rw [hclosed, hdrop, hbehind, hsplit]
      refine ⟨by simp [hline], ?_⟩
      rw [closes, if_pos rfl, Bool.not_false, closes_inside hbody, closes, if_pos rfl]
      rfl
    · right
      refine ⟨rfl, ?_, is_open_read_quoted _ hmem⟩
      rw [closes, if_pos rfl, Bool.not_false, ← List.append_nil (lineOf rest), closes_inside hmem]
      rfl
  · left
    obtain ⟨more, hmore⟩ := read_prefix_rest modes c rest
    have hdrop : rest.drop (read modes c rest).2.length = more := drop_length_of_append hmore
    by_cases hcomment : c = ';'
    · subst hcomment
      have hread : (read modes ';' rest).2 = lineOf rest := rfl
      have hmore' : more = behindLine rest := by
        rw [hread, ← line_of_append_behind_line rest] at hmore
        rw [line_of_append_behind_line] at hmore
        exact List.append_cancel_left (hmore.trans (line_of_append_behind_line rest).symm)
      rw [hdrop, hmore', line_of_behind_line, hcons, hread]
      refine ⟨by simpa using newline_not_mem_line_of rest, ?_⟩
      rfl
    · have hplain : ∀ x ∈ c :: (read modes c rest).2, IsPlain x := by
        intro x hx
        rcases List.mem_cons.1 hx with rfl | hx
        · exact ⟨hc, hquote, hcomment⟩
        · exact is_plain_of_mem_read ⟨hc, hquote, hcomment⟩ hx
      have hnewline : '\n' ∉ c :: (read modes c rest).2 := fun h => (hplain _ h).ne_newline rfl
      refine ⟨hnewline, ?_⟩
      have htext : c :: rest = c :: (read modes c rest).2 ++ more := by rw [List.cons_append, hmore]
      rw [hdrop, htext, line_of_append hnewline]
      exact (closes_of_plain fun x hx => ⟨(hplain x hx).ne_quote, (hplain x hx).ne_semicolon⟩).symm

end Lexeme

/-! ### Modes for names -/

namespace Lexeme

variable {modes : Modes} {tolerant : Bool} {c : Char} {whole rest : List Char}

/-- Some lexemes say with which character they start: the end of a line, a blank and a comment. A
name starts with a point or a hyphen only where a name is expected. -/
def Marked (modes : Modes) (c : Char) : Lexeme → Prop
  | .sign .newline => c = '\n'
  | .blank => Start.of c = .blank
  | .comment => Start.of c = .comment
  | .signedWord => modes.expectName = true
  | _ => True

theorem marked_read_fraction : Marked modes c (readFraction whole rest).1 := by
  unfold readFraction
  dsimp only
  split <;> trivial

theorem marked_read_number : Marked modes c (readNumber tolerant c rest).1 := by
  unfold readNumber
  dsimp only
  split
  · trivial
  · split
    · exact marked_read_fraction
    · trivial

theorem marked_read_quoted (ignoreNewline : Bool) :
    Marked modes c (readQuoted ignoreNewline rest).1 := by
  unfold readQuoted
  dsimp only
  split
  · trivial
  · dsimp only
    split <;> trivial
  · trivial

theorem marked_read_comparison : Marked modes c (readComparison c rest).1 := by
  unfold readComparison
  dsimp only
  split <;> trivial

theorem marked_read_special : Marked modes c (readSpecial modes c rest).1 := by
  refine read_special_cases (P := fun found => Marked modes c found.1) modes c rest id trivial
    (fun special hsimple => ?_) (fun _ => trivial) marked_read_fraction id marked_read_comparison
    trivial
  cases special with
  | newline => cases hsimple
  | _ => trivial

theorem marked_read (modes : Modes) (c : Char) (rest : List Char) :
    Marked modes c (read modes c rest).1 := by
  unfold read
  split
  next hstart => exact hstart
  next hstart => exact hstart
  · split
    · exact marked_read_quoted _
    · trivial
  · split
    · trivial
    · exact marked_read_number
  · exact marked_read_special

end Lexeme

/-- The setting for names to return to, if there is one. -/
def Item.tolerantAfter : Item → Option Bool
  | .token _ _ tolerantAfter => tolerantAfter
  | _ => none

namespace Scanner

variable {s : Scanner} {registry : Registry} {c : Char} {rest : List Char} {token : Token}
  {l : Location} {tolerantAfter : Option Bool} {lexeme : Lexeme}

/-- What a lexeme does to the modes for names, and which items bring it. -/
structure Settled (s : Scanner) (lexeme : Lexeme) (pulled : Pulled) : Prop where
  expectName : pulled.scanner.modes.expectName = s.modes.expectName
  tolerantNames : lexeme ≠ .signedWord →
    pulled.scanner.modes.tolerantNames = s.modes.tolerantNames
  after : pulled.item.tolerantAfter =
    if lexeme = .signedWord then some s.modes.tolerantNames else none
  blank : pulled.item = .blank →
    pulled.scanner.lineStart = s.lineStart ∧ (lexeme = .blank ∨ pulled.reports ≠ [])
  newline : ∀ l tolerantAfter, pulled.item = .token (.special .newline) l tolerantAfter →
    lexeme = .sign .newline
  comment : ∀ text l tolerantAfter, pulled.item = .token (.comment text) l tolerantAfter →
    lexeme = .comment
  endOfText : ∀ l tolerantAfter, pulled.item ≠ .token .endOfText l tolerantAfter

theorem settled_deliver (token : Token) (l : Location) (reports : List Report)
    (hsigned : lexeme ≠ .signedWord)
    (hnewline : token = .special .newline → lexeme = .sign .newline)
    (hcomment : ∀ text, token = .comment text → lexeme = .comment) (hend : token ≠ .endOfText) :
    Settled s lexeme (s.deliver token l none reports) where
  expectName := rfl
  tolerantNames _ := rfl
  after := (if_neg hsigned).symm
  blank := by rintro ⟨⟩
  newline := by
    rintro _ _ ⟨⟩
    exact hnewline rfl
  comment := by
    rintro text _ _ ⟨⟩
    exact hcomment text rfl
  endOfText := by
    rintro _ _ ⟨⟩
    exact hend rfl

theorem settled_deliver_word (s : Scanner) (name : String) (l : Location) (reports : List Report)
    (hsigned : lexeme ≠ .signedWord) :
    Settled s lexeme (s.deliverWord registry name l none reports) := by
  unfold deliverWord
  split
  · exact settled_deliver _ _ _ hsigned (by rintro ⟨⟩) (by rintro _ ⟨⟩) (by rintro ⟨⟩)
  next keyword _ =>
    -- The keyword for message boxes changes a mode that is not for names.
    dsimp only
    split
    · exact { settled_deliver (s := s.mapModes fun modes => { modes with ignoreNewline := true })
        (.keyword keyword) l reports hsigned (by rintro ⟨⟩) (by rintro _ ⟨⟩) (by rintro ⟨⟩) with }
    · exact settled_deliver _ _ _ hsigned (by rintro ⟨⟩) (by rintro _ ⟨⟩) (by rintro ⟨⟩)

theorem settled_signed_word (s : Scanner) (line : Nat) (text : List Char) :
    Settled s .signedWord (s.settle registry line text .signedWord) := by
  unfold settle deliverWord
  dsimp only
  split
  · exact ⟨rfl, fun h => absurd rfl h, rfl, by rintro ⟨⟩, by rintro _ _ ⟨⟩, by rintro _ _ _ ⟨⟩,
      by rintro _ _ ⟨⟩⟩
  · refine ⟨?_, fun h => absurd rfl h, rfl, by rintro ⟨⟩, by rintro _ _ ⟨⟩,
      by rintro _ _ _ ⟨⟩, by rintro _ _ ⟨⟩⟩
    split <;> rfl

theorem settled_settle (s : Scanner) (registry : Registry) (line : Nat) (text : List Char)
    (lexeme : Lexeme) : Settled s lexeme (s.settle registry line text lexeme) := by
  cases lexeme with
  | signedWord => exact settled_signed_word s line text
  | word => exact settled_deliver_word s _ _ _ (by rintro ⟨⟩)
  | quoted body closed =>
      unfold settle
      dsimp only
      split
      · exact settled_deliver _ _ _ (by rintro ⟨⟩) (by rintro ⟨⟩) (by rintro _ ⟨⟩) (by rintro ⟨⟩)
      · exact settled_deliver_word s _ _ _ (by rintro ⟨⟩)
  | blank =>
      exact ⟨rfl, fun _ => rfl, rfl, fun _ => ⟨rfl, Or.inl rfl⟩, by rintro _ _ ⟨⟩,
        by rintro _ _ _ ⟨⟩, by rintro _ _ ⟨⟩⟩
  | strayQuote | strays =>
      exact ⟨rfl, fun _ => rfl, rfl, fun _ => ⟨rfl, Or.inr (List.cons_ne_nil _ _)⟩,
        by rintro _ _ ⟨⟩, by rintro _ _ _ ⟨⟩, by rintro _ _ ⟨⟩⟩
  | openQuote | brokenDecimal | unknown =>
      exact ⟨rfl, fun _ => rfl, rfl, by rintro ⟨⟩, by rintro _ _ ⟨⟩, by rintro _ _ _ ⟨⟩,
        by rintro _ _ ⟨⟩⟩
  | comment =>
      exact settled_deliver _ _ _ (by rintro ⟨⟩) (by rintro ⟨⟩) (fun _ _ => rfl) (by rintro ⟨⟩)
  | integer | decimal | comparison =>
      exact settled_deliver _ _ _ (by rintro ⟨⟩) (by rintro ⟨⟩) (by rintro _ ⟨⟩) (by rintro ⟨⟩)
  | sign special =>
      by_cases hnewline : special = .newline
      · subst hnewline
        exact ⟨rfl, fun _ => rfl, rfl, by rintro ⟨⟩, fun _ _ _ => rfl, by rintro _ _ _ ⟨⟩,
          by rintro _ _ ⟨⟩⟩
      · have hsettle : s.settle registry line text (.sign special) =
            s.deliver (.special special) (s.location text) := by
          cases special with
          | newline => exact absurd rfl hnewline
          | _ => rfl
        rw [hsettle]
        exact settled_deliver _ _ _ (by rintro ⟨⟩) (fun h => absurd (Token.special.inj h) hnewline)
          (by rintro _ ⟨⟩) (by rintro ⟨⟩)

end Scanner

end QuestScript
