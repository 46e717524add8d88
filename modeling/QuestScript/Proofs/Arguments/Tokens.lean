import Mathlib.Data.List.Chain
import Mathlib.Data.List.TakeWhile
import QuestScript.Proofs.Formula
import QuestScript.Proofs.Lines
import QuestScript.Proofs.Reading
import QuestScript.Proofs.Spelling.Basic

/-!
# Tokens as they are written

The tokens of a formula can be written one behind the other with blanks between them
(`Token.Spaced`). The main statement is `Scanner.Faces.delivers_spaced`: on a line that has begun,
the scanner delivers them as they are written, and reports nothing.

A scanner faces a text if the text is what it will read: what it has left, or a comma or line end
that has been put back and what it has left. Blanks in front may have been read already, since the
blanks behind a comparison are read together with it.
-/

namespace QuestScript

/-! ### Gaps and edges -/

namespace Lexeme

/-- Nothing but blanks. -/
def Gap (text : List Char) : Prop :=
  ∀ c ∈ text, Start.of c = .blank

/-- The character ends a name, a number or a sign in front of it. -/
def IsEdge (c : Char) : Prop :=
  Start.of c = .blank ∨ c = ',' ∨ c = '\n'

/-- The character starts a token other than a comma or a line end. -/
def Opens (c : Char) : Prop :=
  (Start.of c = .word ∨ Start.of c = .digit ∨ Start.of c = .special) ∧ c ≠ ',' ∧ c ≠ '\n'

instance (c : Char) : Decidable (Opens c) :=
  inferInstanceAs (Decidable (_ ∧ _))

/-- The characters that comparisons are made of. -/
def comparisonChars : List Char := ['=', '!', '<', '>']

/-- The character may follow inside a comparison. -/
def continuesComparison (c : Char) : Bool :=
  c == '=' || c == '!' || c == '<' || c == '>' || isInnerBlank c

variable {modes : Modes} {c d : Char} {gap gap' text text' rest : List Char}

theorem Gap.append (h : Gap gap) (h' : Gap gap') : Gap (gap ++ gap') := by
  intro c hc
  exact (List.mem_append.1 hc).elim (h c) (h' c)

/-- The blanks in front of a text are no part of it. -/
theorem Gap.append_cons_inj (hgap : Gap gap) (hgap' : Gap gap') (hc : Start.of c ≠ .blank)
    (hd : Start.of d ≠ .blank) (h : gap ++ c :: text = gap' ++ d :: text') :
    c = d ∧ text = text' := by
  induction gap generalizing gap' with
  | nil =>
      cases gap' with
      | nil => simpa using h
      | cons x gap' =>
          cases h
          exact absurd (hgap' c List.mem_cons_self) hc
  | cons x gap ih =>
      cases gap' with
      | nil =>
          cases h
          exact absurd (hgap d List.mem_cons_self) hd
      | cons y gap' =>
          exact ih (fun z hz => hgap z (List.mem_cons_of_mem x hz))
            (fun z hz => hgap' z (List.mem_cons_of_mem y hz)) (List.cons.inj h).2

/-- If blanks of a text have been read, they are some of those in front. -/
theorem Gap.exists_of_append_eq {read : List Char} (hread : Gap read) (hc : Start.of c ≠ .blank)
    (h : gap ++ c :: text = read ++ rest) :
    ∃ gap', rest = gap' ++ c :: text ∧ gap = read ++ gap' := by
  obtain ⟨left, rfl, hleft⟩ | ⟨left, rfl, hrest⟩ := List.append_eq_append_iff.1 h
  · cases left with
    | nil => exact ⟨[], hleft.symm, by simp⟩
    | cons x left =>
        cases hleft
        exact absurd (hread c (by simp)) hc
  · exact ⟨left, hrest, rfl⟩

/-- What holds of the six characters holds of every edge. -/
theorem IsEdge.elim (h : IsEdge c) (P : Char → Prop) [DecidablePred P]
    (hall : ([' ', '\t', ':', '\r', ',', '\n'].all fun d => decide (P d)) = true) : P c := by
  refine Text.forall_mem_of_all hall c ?_
  obtain hblank | rfl | rfl := h
  · obtain rfl | rfl | rfl | rfl := Start.eq_of_blank hblank <;> simp
  · simp
  · simp

theorem ne_of_start (h : Start.of c ≠ Start.of d) : c ≠ d := by
  rintro rfl
  exact h rfl

theorem Opens.of_word (h : Start.of c = .word) : Opens c := by
  have hne : ∀ {d : Char}, Start.of d ≠ .word → c ≠ d := fun hd =>
    ne_of_start fun heq => hd (heq.symm.trans h)
  exact ⟨Or.inl h, hne (by decide), hne (by decide)⟩

theorem Opens.not_blank (h : Opens c) : Start.of c ≠ .blank := by
  obtain ⟨hc | hc | hc, -⟩ := h <;> simp [hc]

theorem Opens.ne_semicolon (h : Opens c) : c ≠ ';' := by
  rintro rfl
  exact absurd h (by decide)

theorem not_mem_comparison_chars (h : Start.of c ≠ .special) : c ∉ comparisonChars := by
  intro hmem
  have hall : ∀ d ∈ comparisonChars, Start.of d = .special := Text.forall_mem_of_all (by decide)
  exact h (hall c hmem)

theorem take_while_append_cons {p : Char → Bool} (hd : p d = false) (text rest : List Char) :
    (text ++ d :: rest).takeWhile p = text.takeWhile p := by
  induction text with
  | nil => simp [hd]
  | cons c text ih => simp only [List.cons_append, List.takeWhile_cons, ih]

end Lexeme

theorem Start.of_is_digit {c : Char} (h : c.isDigit = true) : Start.of c = .digit := by
  have hne : ∀ {d : Char}, d.isDigit = false → c ≠ d := by
    rintro _ hd rfl
    cases hd.symm.trans h
  have halpha : Text.isAlphabetic c = false := by
    have hletter : c.isAlpha = false := by
      rw [← Bool.not_eq_true]
      intro hletter
      cases (Text.is_digit_of_is_alpha hletter).symm.trans h
    have hascii : c.toNat < 128 := by
      have hdigit := h
      simp only [Char.isDigit, Bool.and_eq_true, decide_eq_true_eq, ge_iff_le,
        UInt32.le_iff_toNat_le] at hdigit
      have hle : c.toNat ≤ 57 := hdigit.2
      omega
    rw [Text.isAlphabetic, if_pos hascii, hletter]
  have hblank : ¬(c = ' ' ∨ c = '\t' ∨ c = ':' ∨ c = '\r') := by
    simp [hne]
  have hword : ¬(Text.isAlphabetic c = true ∨ c = '_' ∨ c = '"') := by
    simp [halpha, hne]
  unfold Start.of
  rw [if_neg (hne rfl), if_neg hblank, if_neg hword, if_pos h]

theorem Lexeme.opens_of_is_digit {c : Char} (h : c.isDigit = true) :
    Opens c ∧ c ≠ '"' ∧ c ∉ comparisonChars := by
  have hc := Start.of_is_digit h
  have hne : ∀ {d : Char}, Start.of d ≠ .digit → c ≠ d := fun hd =>
    ne_of_start fun heq => hd (heq.symm.trans hc)
  exact ⟨⟨Or.inr (Or.inl hc), hne (by decide), hne (by decide)⟩, hne (by decide),
    not_mem_comparison_chars (by simp [hc])⟩

/-! ### What is read up to an edge -/

namespace Lexeme

variable {modes : Modes} {c d : Char} {gap whole fraction rest : List Char}

/-- A name ends in front of a character that does not continue it. -/
theorem name_run_before {word : List Char} (hword : nameRun false word = word)
    (hstop : continuesName false d rest = false) : nameRun false (word ++ d :: rest) = word := by
  induction word with
  | nil => simp [nameRun, hstop]
  | cons c word ih =>
      unfold nameRun at hword
      split at hword
      next hcontinues =>
        -- A hyphen stands in front of a name character, so it is not the last one.
        have hhere : continuesName false c (word ++ d :: rest) = true := by
          cases word with
          | nil =>
              have hc : isNameChar c = true := by simpa [continuesName] using hcontinues
              simp [continuesName, hc]
          | cons x word => exact hcontinues
        rw [List.cons_append, nameRun, if_pos hhere, ih (List.cons.inj hword).2]
      · cases hword

theorem name_run_of_edge {word : List Char} (hword : nameRun false word = word) (hd : IsEdge d) :
    nameRun false (word ++ d :: rest) = word := by
  refine name_run_before hword ?_
  have hname : isNameChar d = false := hd.elim (isNameChar · = false) (by decide)
  have hhyphen : (d == '-') = false := hd.elim (fun x => (x == '-') = false) (by decide)
  simp [continuesName, hname, hhyphen]

theorem read_name (hmodes : modes.tolerantNames = false) (hc : Start.of c = .word)
    (hquote : c ≠ '"') {word : List Char} (hword : nameRun false word = word) (hd : IsEdge d) :
    read modes c (word ++ d :: rest) = (.word, word) := by
  unfold read
  rw [hc]
  dsimp only
  rw [if_neg hquote, hmodes, name_run_of_edge hword hd]

theorem read_fraction_of_edge (hfraction : ∀ x ∈ fraction, x.isDigit = true)
    (hdigits : whole ++ fraction ≠ []) (hd : IsEdge d) :
    readFraction whole (fraction ++ d :: rest) = (.decimal whole fraction, fraction) := by
  have hstop : (d.isDigit || Text.isAlphabetic d || d == '_') = false :=
    hd.elim (fun x => (x.isDigit || Text.isAlphabetic x || x == '_') = false) (by decide)
  have hrun : (fraction ++ d :: rest).takeWhile
      (fun x => x.isDigit || Text.isAlphabetic x || x == '_') = fraction := by
    rw [take_while_append_cons hstop]
    refine List.takeWhile_eq_self_iff.2 fun x hx => ?_
    simp [hfraction x hx]
  have hall : fraction.filter Char.isDigit = fraction := List.filter_eq_self.2 hfraction
  have hsome : (whole.isEmpty && fraction.isEmpty) = false := by
    rw [Bool.eq_false_iff]
    intro hempty
    exact hdigits (by simpa using hempty)
  have hproper : (fraction.all Char.isDigit) = true := List.all_eq_true.2 hfraction
  unfold readFraction
  dsimp only
  rw [hrun, hall, hsome, hproper]
  rfl

theorem read_integer (hmodes : modes.expectName = false) (hc : c.isDigit = true)
    {digits : List Char} (hdigits : ∀ x ∈ digits, x.isDigit = true) (hd : IsEdge d) :
    read modes c (digits ++ d :: rest) = (.integer, digits) := by
  have hstop : d.isDigit = false := hd.elim (·.isDigit = false) (by decide)
  have hname : isNameChar d = false := hd.elim (isNameChar · = false) (by decide)
  have hpoint : d ≠ '.' := hd.elim (· ≠ '.') (by decide)
  have hbehind : (digits ++ d :: rest).dropWhile Char.isDigit = d :: rest := by
    rw [List.dropWhile_append_of_pos hdigits]
    simp [hstop]
  have hrun : (digits ++ d :: rest).takeWhile Char.isDigit = digits := by
    rw [take_while_append_cons hstop]
    exact List.takeWhile_eq_self_iff.2 hdigits
  unfold read
  rw [Start.of_is_digit hc]
  simp [hmodes, readNumber, hbehind, hrun, hname, hpoint]

theorem read_decimal (hmodes : modes.expectName = false) (hc : c.isDigit = true)
    (hwhole : ∀ x ∈ whole, x.isDigit = true) (hfraction : ∀ x ∈ fraction, x.isDigit = true)
    (hd : IsEdge d) :
    read modes c ((whole ++ '.' :: fraction) ++ d :: rest) =
      (.decimal (c :: whole) fraction, whole ++ '.' :: fraction) := by
  rw [List.append_assoc, List.cons_append]
  have hbehind : (whole ++ '.' :: (fraction ++ d :: rest)).dropWhile Char.isDigit =
      '.' :: (fraction ++ d :: rest) := by
    rw [List.dropWhile_append_of_pos hwhole]
    rfl
  have hrun : (whole ++ '.' :: (fraction ++ d :: rest)).takeWhile Char.isDigit = whole := by
    rw [take_while_append_cons rfl]
    exact List.takeWhile_eq_self_iff.2 hwhole
  have hname : isNameChar '.' = false := by decide
  have hread : readFraction (c :: whole) (fraction ++ d :: rest) =
      (.decimal (c :: whole) fraction, _) := read_fraction_of_edge hfraction (by simp) hd
  unfold read
  rw [Start.of_is_digit hc]
  simp [hmodes, readNumber, hbehind, hrun, hname, hread]

theorem read_point (hmodes : modes.ignoreSpecial = false) (hc : c.isDigit = true)
    (hfraction : ∀ x ∈ fraction, x.isDigit = true) (hd : IsEdge d) :
    read modes '.' ((c :: fraction) ++ d :: rest) =
      (.decimal [] (c :: fraction), c :: fraction) := by
  have hall : ∀ x ∈ c :: fraction, x.isDigit = true := by simpa [hc] using hfraction
  have hread : readFraction [] ((c :: fraction) ++ d :: rest) = _ :=
    read_fraction_of_edge hall (by simp) hd
  show readSpecial modes '.' _ = _
  simp only [List.cons_append] at hread ⊢
  simp [readSpecial, hmodes, hc, hread]

/-- The signs of a formula that are no comparisons. -/
def marks : List (Special × Char) := [
  (.opening, '('), (.opening, '['), (.closing, ')'), (.closing, ']'), (.plus, '+'), (.minus, '-'),
  (.times, '*'), (.divided, '/')]

theorem read_mark (hspecial : modes.ignoreSpecial = false) (hmodes : modes.expectName = false)
    {sign : Special} (hmark : (sign, c) ∈ marks) (hd : IsEdge d) :
    read modes c (d :: rest) = (.sign sign, []) := by
  have hreference : d ≠ '>' := hd.elim (· ≠ '>') (by decide)
  simp only [marks, List.mem_cons, Prod.mk.injEq, List.not_mem_nil, or_false] at hmark
  obtain ⟨rfl, rfl⟩ | ⟨rfl, rfl⟩ | ⟨rfl, rfl⟩ | ⟨rfl, rfl⟩ | ⟨rfl, rfl⟩ | ⟨rfl, rfl⟩ | ⟨rfl, rfl⟩ |
    ⟨rfl, rfl⟩ := hmark
  all_goals
    show readSpecial modes _ (d :: rest) = _
    simp [readSpecial, hspecial, hmodes, hreference]

/-- A comparison that is spelled properly has no blanks in it. -/
theorem mem_comparison_chars_of_comparison_of? {spelling : List Char} {kind : Comparison}
    (h : comparisonOf? spelling = some (kind, true)) : ∀ x ∈ spelling, x ∈ comparisonChars := by
  unfold comparisonOf? at h
  split at h <;> cases h
  all_goals exact Text.forall_mem_of_all (by decide)

theorem continues_comparison_of_mem (h : c ∈ comparisonChars) : continuesComparison c = true := by
  have hall : ∀ d ∈ comparisonChars, continuesComparison d = true := List.all_eq_true.1 (by decide)
  exact hall c h

theorem is_inner_blank_of_mem (h : c ∈ comparisonChars) : isInnerBlank c = false := by
  have hall : ∀ d ∈ comparisonChars, isInnerBlank d = false := Text.forall_mem_of_all (by decide)
  exact hall c h

/-- Blanks belong to the comparison in front of them, as far as they may stand in one. -/
theorem is_inner_blank_of_continues_comparison (hblank : Start.of c = .blank)
    (h : continuesComparison c = true) : isInnerBlank c = true := by
  obtain rfl | rfl | rfl | rfl := Start.eq_of_blank hblank
  · rfl
  · rfl
  · cases h
  · cases h

theorem continues_comparison_eq_false (hblank : Start.of c ≠ .blank) (h : c ∉ comparisonChars) :
    continuesComparison c = false := by
  have hspace : c ≠ ' ' := by
    rintro rfl
    exact hblank rfl
  have htab : c ≠ '\t' := by
    rintro rfl
    exact hblank rfl
  simp only [comparisonChars, List.mem_cons, List.not_mem_nil, or_false, not_or] at h
  simp [continuesComparison, isInnerBlank, hspace, htab, h]

theorem read_comparison (hspecial : modes.ignoreSpecial = false) {more : List Char}
    {kind : Comparison} (hkind : comparisonOf? (c :: more) = some (kind, true)) (hgap : Gap gap)
    (hblank : Start.of d ≠ .blank) (hd : d ∉ comparisonChars) :
    read modes c ((more ++ gap.takeWhile continuesComparison) ++
        (gap.dropWhile continuesComparison ++ d :: rest)) =
      (.comparison kind true, more ++ gap.takeWhile continuesComparison) := by
  have hchars := mem_comparison_chars_of_comparison_of? hkind
  have hmore : ∀ x ∈ more, continuesComparison x = true := fun x hx =>
    continues_comparison_of_mem (hchars x (List.mem_cons_of_mem c hx))
  have htext : (more ++ gap.takeWhile continuesComparison) ++
      (gap.dropWhile continuesComparison ++ d :: rest) = more ++ (gap ++ d :: rest) := by
    rw [List.append_assoc, ← List.append_assoc (gap.takeWhile _), List.takeWhile_append_dropWhile]
  have hrun : (more ++ (gap ++ d :: rest)).takeWhile continuesComparison =
      more ++ gap.takeWhile continuesComparison := by
    rw [List.takeWhile_append_of_pos hmore,
      take_while_append_cons (continues_comparison_eq_false hblank hd)]
  -- Without the blanks the spelling is left.
  have hspelling : (c :: (more ++ gap.takeWhile continuesComparison)).filter (!isInnerBlank ·) =
      c :: more := by
    have hkept : (c :: more).filter (!isInnerBlank ·) = c :: more :=
      List.filter_eq_self.2 fun x hx => by simp [is_inner_blank_of_mem (hchars x hx)]
    have hgone : (gap.takeWhile continuesComparison).filter (!isInnerBlank ·) = [] := by
      refine List.filter_eq_nil_iff.2 fun x hx => ?_
      have hx' := is_inner_blank_of_continues_comparison
        (hgap x ((List.takeWhile_prefix _).subset hx)) (List.mem_takeWhile_imp hx)
      simp [hx']
    rw [← List.cons_append, List.filter_append, hkept, hgone, List.append_nil]
  have hread : read modes c (more ++ (gap ++ d :: rest)) =
      readComparison c (more ++ (gap ++ d :: rest)) := by
    have hc := hchars c List.mem_cons_self
    simp only [comparisonChars, List.mem_cons, List.not_mem_nil, or_false] at hc
    obtain rfl | rfl | rfl | rfl := hc
    all_goals
      show readSpecial modes _ _ = _
      simp [readSpecial, hspecial]
  rw [htext, hread]
  unfold readComparison
  rw [show (more ++ (gap ++ d :: rest)).takeWhile (fun c =>
    c == '=' || c == '!' || c == '<' || c == '>' || isInnerBlank c) = _ from hrun]
  dsimp only
  rw [hspelling, hkind]

end Lexeme

/-! ### The written form -/

namespace Token

/-- The token is a comparison. -/
def IsComparison : Token → Prop
  | .special (.comparison _) => True
  | _ => False

/-- The characters are a way to write the token of a formula. -/
inductive Written (registry : Registry) : Token → List Char → Prop where
  | int {c : Char} {digits : List Char} (hdigits : ∀ x ∈ c :: digits, x.isDigit = true) :
      Written registry (.int (Scanner.integerValue (c :: digits))) (c :: digits)
  | float {whole fraction : List Char} (hsome : whole ++ fraction ≠ [])
      (hdigits : ∀ x ∈ whole ++ fraction, x.isDigit = true) :
      Written registry (.float (Scanner.decimalValue whole fraction)) (whole ++ '.' :: fraction)
  | name {c : Char} {word : List Char} (hc : Start.of c = .word) (hquote : c ≠ '"')
      (hword : Lexeme.nameRun false word = word)
      (hkeyword : registry.keyword? (Text.toLower (String.ofList (c :: word))) = none) :
      Written registry (.name (String.ofList (c :: word))) (c :: word)
  | mark {sign : Special} {c : Char} (hmark : (sign, c) ∈ Lexeme.marks) :
      Written registry (.special sign) [c]
  | comparison {kind : Comparison} {spelling : List Char}
      (hkind : Lexeme.comparisonOf? spelling = some (kind, true)) :
      Written registry (.special (.comparison kind)) spelling

/-- The characters are a way to write the tokens with blanks between them. -/
inductive Spaced (registry : Registry) : List Token → List Char → Prop where
  | single {token : Token} {chars : List Char} (h : token.Written registry chars) :
      Spaced registry [token] chars
  | cons {token : Token} {tokens : List Token} {chars gap text : List Char}
      (h : token.Written registry chars) (hgap : Lexeme.Gap gap) (hsome : gap ≠ [])
      (hrest : Spaced registry tokens text) :
      Spaced registry (token :: tokens) (chars ++ (gap ++ text))

variable {registry : Registry} {token : Token} {tokens : List Token} {chars text : List Char}

/-- Only a comparison starts with a character of comparisons. -/
theorem Written.exists_cons (h : token.Written registry chars) :
    ∃ c rest, chars = c :: rest ∧ Lexeme.Opens c ∧ c ≠ '"' ∧
      (¬token.IsComparison → c ∉ Lexeme.comparisonChars) := by
  cases h with
  | @int c digits hdigits =>
      obtain ⟨hc, hquote, hcompare⟩ := Lexeme.opens_of_is_digit (hdigits c List.mem_cons_self)
      exact ⟨c, digits, rfl, hc, hquote, fun _ => hcompare⟩
  | @float whole fraction hsome hdigits =>
      cases whole with
      | nil => exact ⟨'.', fraction, rfl, by decide, by decide, fun _ => by decide⟩
      | cons c whole =>
          obtain ⟨hc, hquote, hcompare⟩ := Lexeme.opens_of_is_digit (hdigits c List.mem_cons_self)
          exact ⟨c, whole ++ '.' :: fraction, rfl, hc, hquote, fun _ => hcompare⟩
  | @name c word hc hquote hword hkeyword =>
      exact ⟨c, word, rfl, .of_word hc, hquote,
        fun _ => Lexeme.not_mem_comparison_chars (by simp [hc])⟩
  | @mark sign c hmark =>
      have hall : ∀ mark ∈ Lexeme.marks,
          Lexeme.Opens mark.2 ∧ mark.2 ≠ '"' ∧ mark.2 ∉ Lexeme.comparisonChars := by decide
      obtain ⟨hc, hquote, hcompare⟩ := hall _ hmark
      exact ⟨c, [], rfl, hc, hquote, fun _ => hcompare⟩
  | @comparison kind _ hkind =>
      cases chars with
      | nil => cases hkind
      | cons c rest =>
          have hall : ∀ x ∈ Lexeme.comparisonChars, Lexeme.Opens x ∧ x ≠ '"' :=
            Text.forall_mem_of_all (by decide)
          have hc := Lexeme.mem_comparison_chars_of_comparison_of? hkind c List.mem_cons_self
          exact ⟨c, rest, rfl, (hall c hc).1, (hall c hc).2, fun hnot => absurd trivial hnot⟩

theorem Written.is_offered (h : token.Written registry chars) : token.IsOffered := by
  cases h with
  | _ => exact ⟨by rintro ⟨⟩, by rintro _ ⟨⟩⟩

theorem Spaced.exists_written (h : Spaced registry tokens text) :
    ∃ token rest chars more, tokens = token :: rest ∧ text = chars ++ more ∧
      token.Written registry chars := by
  cases h with
  | single h => exact ⟨_, [], _, [], rfl, (List.append_nil _).symm, h⟩
  | cons h _ _ _ => exact ⟨_, _, _, _, rfl, rfl, h⟩

end Token

namespace Formula

/-- There are tokens, no two comparisons stand side by side, and none stands at an end. -/
structure ComparesApart (tokens : List Token) : Prop where
  chain : tokens.IsChain fun a b => a.IsComparison → ¬b.IsComparison
  head : ∃ token ∈ tokens.head?, ¬token.IsComparison
  last : ∃ token ∈ tokens.getLast?, ¬token.IsComparison

variable {env : Environment} {locals : Locals} {level : Level} {tokens left right : List Token}
  {formula : Formula}

theorem ComparesApart.singleton {token : Token} (h : ¬token.IsComparison) :
    ComparesApart [token] :=
  ⟨.singleton token, ⟨token, rfl, h⟩, ⟨token, rfl, h⟩⟩

theorem ComparesApart.append (hleft : ComparesApart left) (hright : ComparesApart right) :
    ComparesApart (left ++ right) := by
  obtain ⟨first, hfirst, hfirst'⟩ := hleft.head
  obtain ⟨before, hbefore, hbefore'⟩ := hleft.last
  obtain ⟨final, hfinal, hfinal'⟩ := hright.last
  refine ⟨List.isChain_append.2 ⟨hleft.chain, hright.chain, ?_⟩,
    ⟨first, by simp [Option.mem_def.1 hfirst], hfirst'⟩,
    ⟨final, by simp [Option.mem_def.1 hfinal], hfinal'⟩⟩
  intro token htoken _ _ hcompares
  cases Option.mem_unique htoken hbefore
  exact absurd hcompares hbefore'

/-- A comparison may stand between two rows of tokens. -/
theorem ComparesApart.append_cons (hleft : ComparesApart left) (hright : ComparesApart right)
    (token : Token) : ComparesApart (left ++ token :: right) := by
  obtain ⟨first, hfirst, hfirst'⟩ := hleft.head
  obtain ⟨before, hbefore, hbefore'⟩ := hleft.last
  obtain ⟨next, hnext, hnext'⟩ := hright.head
  obtain ⟨final, hfinal, hfinal'⟩ := hright.last
  refine ⟨List.isChain_append.2 ⟨hleft.chain, List.isChain_cons.2 ⟨?_, hright.chain⟩, ?_⟩,
    ⟨first, by simp [Option.mem_def.1 hfirst], hfirst'⟩,
    ⟨final, by simp [List.getLast?_cons, Option.mem_def.1 hfinal], hfinal'⟩⟩
  · intro other hother _
    cases Option.mem_unique hother hnext
    exact hnext'
  · intro other hother _ _ hcompares
    cases Option.mem_unique hother hbefore
    exact absurd hcompares hbefore'

theorem Derives.compares_apart (h : Derives env locals level tokens formula) :
    ComparesApart tokens := by
  induction h with
  | @atom token operand h =>
      refine .singleton ?_
      cases token with
      | special sign => cases h
      | _ => exact id
  | plus _ ih => exact (ComparesApart.singleton id).append ih
  | minus _ ih => exact (ComparesApart.singleton id).append ih
  | group _ ih => exact ((ComparesApart.singleton id).append ih).append (.singleton id)
  | single _ _ ih => exact ih
  | binary _ _ _ _ ihLeft ihRight => exact ihLeft.append_cons ihRight _

end Formula

/-! ### What the scanner faces -/

/-- The modes on a line that has begun, and whether a name is expected. -/
structure Modes.Begun (modes : Modes) (expect : Bool) : Prop where
  ignoreSpecial : modes.ignoreSpecial = false
  tolerantNames : modes.tolerantNames = false
  expectName : modes.expectName = expect

theorem Modes.Begun.start {modes : Modes} {expect : Bool} (h : modes.Begun expect) {c : Char}
    (hc : Start.of c = .word ∨ Start.of c = .digit ∨ Start.of c = .special) :
    (modes.start (Start.of c)).Begun false := by
  obtain hc | hc | hc := hc
  · rw [hc]
    exact ⟨rfl, h.tolerantNames, rfl⟩
  · rw [hc]
    exact ⟨rfl, h.tolerantNames, rfl⟩
  · rw [hc]
    exact ⟨h.ignoreSpecial, h.tolerantNames, rfl⟩

namespace Scanner

open Lexeme (Gap Opens)

/-- The text is what the scanner will read, except that blanks in front may have been read. A comma
or a line end at the start of the text may have been put back. Behind a line end that has been put
back the modes are those of the next line. -/
inductive Faces (expect : Bool) (s : Scanner) (text : List Char) : Prop where
  | unread (read : List Char) (hpending : s.pending = none) (htext : text = read ++ s.rest)
      (hread : Gap read) (hmodes : s.modes.Begun expect)
  | comma (front back : List Char) (place : Location)
      (hpending : s.pending = some (.special .comma, place))
      (htext : text = front ++ ',' :: (back ++ s.rest)) (hfront : Gap front) (hback : Gap back)
      (hmodes : s.modes.Begun expect)
  | newline (front : List Char) (place : Location)
      (hpending : s.pending = some (.special .newline, place))
      (htext : text = front ++ '\n' :: s.rest) (hfront : Gap front)

/-- The token comes next, behind blanks at most, and nothing is reported. -/
inductive Yields (registry : Registry) : Scanner → Token → Location → Scanner → Prop where
  | token {s s' : Scanner} {token : Token} {place : Location}
      (hpull : s.pull registry = ⟨.token token place none, s', []⟩) :
      Yields registry s token place s'
  | blank {s s' final : Scanner} {token : Token} {place : Location}
      (hpull : s.pull registry = ⟨.blank, s', []⟩)
      (hrest : Yields registry s' token place final) : Yields registry s token place final

variable {registry : Registry} {expect : Bool} {s final : Scanner} {token : Token}
  {place : Location} {c : Char} {gap text tail : List Char}

theorem settle_sign {sign : Special} (h : sign ≠ .newline) (s : Scanner) (line : Nat)
    (text : List Char) :
    s.settle registry line text (.sign sign) = s.deliver (.special sign) (s.location text) := by
  cases sign with
  | newline => exact absurd rfl h
  | _ => rfl

/-- Blanks are passed over. -/
theorem Yields.of_gap (hgap : Gap gap) (hpending : s.pending = none)
    (hrest : s.rest = gap ++ text)
    (h : Yields registry { s with rest := text, column := s.column + gap.length } token place
      final) :
    Yields registry s token place final := by
  induction gap generalizing s with
  | nil =>
      cases hrest
      exact h
  | cons c gap ih =>
      refine .blank (pull_blank (hgap c List.mem_cons_self) hpending hrest) ?_
      refine ih (fun x hx => hgap x (List.mem_cons_of_mem c hx)) hpending rfl ?_
      have hcolumn : s.column + 1 + gap.length = s.column + (c :: gap).length := by
        simp only [List.length_cons]
        omega
      dsimp only
      rw [hcolumn]
      exact h

theorem Yields.pending_eq_none (h : Yields registry s token place final) :
    final.pending = none := by
  induction h with
  | @token s final _ _ hpull =>
      have hpending := pending_pull s registry
      rw [hpull] at hpending
      exact hpending
  | blank _ _ ih => exact ih

theorem Yields.delivers {tokens : List (Token × Location)} {s' : Scanner}
    (h : Yields registry s token place s') (hoffered : token.IsOffered)
    (hrest : Delivers registry s' tokens [] final) :
    Delivers registry s ((token, place) :: tokens) [] final := by
  induction h with
  | @token s s' token place hpull =>
      have hitem : (s.pull registry).item = .token token place none := by rw [hpull]
      have hreports : (s.pull registry).reports ++ [] = [] := by rw [hpull]; rfl
      rw [← hreports]
      refine .take hitem hoffered.1 hoffered.2 ?_
      rw [hpull]
      exact hrest
  | @blank s s' final' token place hpull _ ih =>
      have hpass : (s.pull registry).item.IsPassed := by
        rw [hpull]
        trivial
      have hreports : (s.pull registry).reports ++ [] = [] := by rw [hpull]; rfl
      rw [← hreports]
      refine .pass hpass ?_
      rw [hpull]
      exact ih hoffered hrest

namespace Faces

theorem gap_append (hs : s.Faces expect text) (hgap : Gap gap) : s.Faces expect (gap ++ text) := by
  cases hs with
  | unread read hpending htext hread hmodes =>
      refine .unread (gap ++ read) hpending ?_ (hgap.append hread) hmodes
      rw [htext, List.append_assoc]
  | comma front back place hpending htext hfront hback hmodes =>
      refine .comma (gap ++ front) back place hpending ?_ (hgap.append hfront) hback hmodes
      rw [htext, List.append_assoc]
  | newline front place hpending htext hfront =>
      refine .newline (gap ++ front) place hpending ?_ (hgap.append hfront)
      rw [htext, List.append_assoc]

/-- What a text that the scanner faces can be: characters that it has not read, or a sign that has
been put back. -/
theorem cases_of_gap (hs : s.Faces expect (gap ++ c :: text)) (hgap : Gap gap)
    (hc : Start.of c ≠ .blank) :
    (s.pending = none ∧ s.modes.Begun expect ∧ ∃ gap', Gap gap' ∧ s.rest = gap' ++ c :: text) ∨
      (c = ',' ∧ s.modes.Begun expect ∧ ∃ place back,
        s.pending = some (.special .comma, place) ∧ Gap back ∧ text = back ++ s.rest) ∨
      (c = '\n' ∧ ∃ place, s.pending = some (.special .newline, place) ∧ text = s.rest) := by
  cases hs with
  | unread read hpending htext hread hmodes =>
      obtain ⟨gap', hrest, rfl⟩ := hread.exists_of_append_eq hc htext
      exact Or.inl ⟨hpending, hmodes, gap', fun x hx => hgap x (List.mem_append_right _ hx), hrest⟩
  | comma front back place hpending htext hfront hback hmodes =>
      obtain ⟨rfl, rfl⟩ := hgap.append_cons_inj hfront hc (by decide) htext
      exact Or.inr (Or.inl ⟨rfl, hmodes, place, back, hpending, hback, rfl⟩)
  | newline front place hpending htext hfront =>
      obtain ⟨rfl, rfl⟩ := hgap.append_cons_inj hfront hc (by decide) htext
      exact Or.inr (Or.inr ⟨rfl, place, hpending, rfl⟩)

/-- A lexeme that the modes of the line make a token of. -/
theorem yields_lexeme {more : List Char} {lexeme : Lexeme}
    (hs : s.Faces expect (gap ++ c :: (more ++ tail))) (hgap : Gap gap) (hc : Opens c)
    (hread : ∀ modes : Modes, modes.Begun expect →
      Lexeme.read modes c (more ++ tail) = (lexeme, more)) (hline : '\n' ∉ more)
    (hsettle : ∀ (s : Scanner) (line : Nat), ∃ place,
      s.settle registry line (c :: more) lexeme = s.deliver token place) :
    ∃ place s', Yields registry s token place s' ∧ s'.Faces false tail := by
  obtain ⟨hpending, hmodes, gap', hgap', hrest⟩ | ⟨rfl, -⟩ | ⟨rfl, -⟩ :=
    hs.cases_of_gap hgap hc.not_blank
  · let passed : Scanner := { s with rest := c :: (more ++ tail), column := s.column + gap'.length }
    have hline' : '\n' ∉ c :: more := by
      simp [hline, hc.2.2.symm]
    have hpull : passed.pull registry = _ :=
      pull_of_read hpending rfl (hread _ hmodes) hline'
    obtain ⟨place, hplace⟩ := hsettle _ passed.line
    exact ⟨place, _, .of_gap hgap' hpending hrest (.token (hpull.trans hplace)),
      .unread [] hpending rfl (by rintro _ ⟨⟩) (hmodes.start hc.1)⟩
  · exact absurd rfl hc.2.1
  · exact absurd rfl hc.2.2

/-- The same for a lexeme without quotes, which stays on its line. -/
theorem yields_plain {more : List Char} {lexeme : Lexeme}
    (hs : s.Faces expect (gap ++ c :: (more ++ tail))) (hgap : Gap gap) (hc : Opens c)
    (hquote : c ≠ '"') (hread : ∀ modes : Modes, modes.Begun expect →
      Lexeme.read modes c (more ++ tail) = (lexeme, more))
    (hsettle : ∀ (s : Scanner) (line : Nat), ∃ place,
      s.settle registry line (c :: more) lexeme = s.deliver token place) :
    ∃ place s', Yields registry s token place s' ∧ s'.Faces false tail := by
  have hplain : IsPlain c := ⟨hc.2.2, hquote, hc.ne_semicolon⟩
  refine hs.yields_lexeme hgap hc hread ?_ hsettle
  intro hmem
  let modes : Modes := { ignoreSpecial := false, expectName := expect }
  have hread' : (Lexeme.read modes c (more ++ tail)).2 = more := by rw [hread modes ⟨rfl, rfl, rfl⟩]
  exact (Lexeme.is_plain_of_mem_read hplain (hread'.symm ▸ hmem)).ne_newline rfl

/-- A token that is written is delivered, if what stands behind it does not continue it. -/
theorem yields_written {front chars back rest : List Char} {d : Char}
    (hs : s.Faces false (front ++ (chars ++ (back ++ d :: rest)))) (hfront : Gap front)
    (h : token.Written registry chars) (hback : Gap back) (hd : Start.of d ≠ .blank)
    (hedge : back = [] → Lexeme.IsEdge d)
    (hcompare : token.IsComparison → d ∉ Lexeme.comparisonChars) :
    ∃ place s', Yields registry s token place s' ∧ s'.Faces false (back ++ d :: rest) := by
  obtain ⟨x, tail, htail, hx⟩ : ∃ x tail, back ++ d :: rest = x :: tail ∧ Lexeme.IsEdge x := by
    cases back with
    | nil => exact ⟨d, rest, rfl, hedge rfl⟩
    | cons x back => exact ⟨x, back ++ d :: rest, rfl, Or.inl (hback x List.mem_cons_self)⟩
  obtain ⟨c, more, hchars, hc, hquote, -⟩ := h.exists_cons
  cases h with
  | int hdigits =>
      cases hchars
      rw [htail] at hs ⊢
      have hread (modes : Modes) (hmodes : modes.Begun false) :
          Lexeme.read modes c (more ++ x :: tail) = (.integer, more) :=
        Lexeme.read_integer hmodes.expectName (hdigits c List.mem_cons_self)
          (fun y hy => hdigits y (List.mem_cons_of_mem c hy)) hx
      exact hs.yields_plain hfront hc hquote hread fun s line => ⟨_, rfl⟩
  | @float whole fraction hsome hdigits =>
      rw [htail] at hs ⊢
      cases whole with
      | nil =>
          cases hchars
          cases more with
          | nil => exact absurd rfl hsome
          | cons y more =>
              have hread (modes : Modes) (hmodes : modes.Begun false) :
                  Lexeme.read modes '.' ((y :: more) ++ x :: tail) = (.decimal [] (y :: more), _) :=
                Lexeme.read_point hmodes.ignoreSpecial (hdigits y List.mem_cons_self)
                  (fun z hz => hdigits z (List.mem_cons_of_mem y hz)) hx
              exact hs.yields_plain hfront hc hquote hread fun s line => ⟨_, rfl⟩
      | cons y whole =>
          cases hchars
          have hread (modes : Modes) (hmodes : modes.Begun false) :
              Lexeme.read modes c ((whole ++ '.' :: fraction) ++ x :: tail) =
                (.decimal (c :: whole) fraction, _) :=
            Lexeme.read_decimal hmodes.expectName (hdigits c List.mem_cons_self)
              (fun z hz => hdigits z (by simp [hz])) (fun z hz => hdigits z (by simp [hz])) hx
          exact hs.yields_plain hfront hc hquote hread fun s line => ⟨_, rfl⟩
  | name hstart _ hword hkeyword =>
      cases hchars
      rw [htail] at hs ⊢
      have hread (modes : Modes) (hmodes : modes.Begun false) :
          Lexeme.read modes c (more ++ x :: tail) = (.word, more) :=
        Lexeme.read_name hmodes.tolerantNames hstart hquote hword hx
      refine hs.yields_plain hfront hc hquote hread fun s line => ⟨s.location (c :: more), ?_⟩
      show s.deliverWord registry _ _ = _
      rw [deliverWord, hkeyword]
  | mark hmark =>
      cases hchars
      rw [htail] at hs ⊢
      have hread (modes : Modes) (hmodes : modes.Begun false) :
          Lexeme.read modes c ([] ++ x :: tail) = (.sign _, []) :=
        Lexeme.read_mark hmodes.ignoreSpecial hmodes.expectName hmark hx
      have hnewline : ∀ mark ∈ Lexeme.marks, mark.1 ≠ .newline := by decide
      exact hs.yields_plain hfront hc hquote hread fun s line =>
        ⟨_, settle_sign (hnewline _ hmark) s line _⟩
  | comparison hkind =>
      cases hchars
      -- The blanks that may stand inside a comparison are read together with it.
      have hread (modes : Modes) (hmodes : modes.Begun false) :
          Lexeme.read modes c ((more ++ back.takeWhile Lexeme.continuesComparison) ++
            (back.dropWhile Lexeme.continuesComparison ++ d :: rest)) = (.comparison _ true, _) :=
        Lexeme.read_comparison hmodes.ignoreSpecial hkind hback hd (hcompare trivial)
      have hskip : back.takeWhile Lexeme.continuesComparison ++
          (back.dropWhile Lexeme.continuesComparison ++ d :: rest) = back ++ d :: rest := by
        rw [← List.append_assoc, List.takeWhile_append_dropWhile]
      rw [← hskip, List.cons_append, ← List.append_assoc more] at hs
      obtain ⟨place, s', hyields, hs'⟩ :=
        hs.yields_plain hfront hc hquote hread fun s line => ⟨_, rfl⟩
      rw [← hskip]
      exact ⟨place, s', hyields,
        hs'.gap_append fun y hy => hback y ((List.takeWhile_prefix _).subset hy)⟩

/-- A quoted text on the line is a name, unless it spells a keyword. -/
theorem yields_quoted {front body : List Char}
    (hs : s.Faces expect (front ++ (('"' :: (body ++ ['"'])) ++ tail))) (hfront : Gap front)
    (hquote : '"' ∉ body) (hline : '\n' ∉ body)
    (hkeyword : registry.keyword? (Text.toLower (String.ofList body)) = none) :
    ∃ place s', Yields registry s (.name (String.ofList body)) place s' ∧ s'.Faces false tail := by
  have hread (modes : Modes) (_ : modes.Begun expect) :
      Lexeme.read modes '"' ((body ++ ['"']) ++ tail) = (.quoted body true, body ++ ['"']) := by
    rw [List.append_assoc]
    exact Lexeme.read_quoted_closed modes.ignoreNewline hquote hline
  have hline' : '\n' ∉ body ++ ['"'] := by simp [hline]
  have hreports (line : Nat) : newlineReports line ('"' :: (body ++ ['"'])) = [] := by
    rw [newlineReports, List.count_eq_zero_of_not_mem (by simp [hline])]
    rfl
  refine hs.yields_lexeme hfront (by decide) hread hline' fun s line =>
    ⟨s.location (lastLine ('"' :: (body ++ ['"']))), ?_⟩
  rw [settle]
  dsimp only
  rw [hreports, Bool.true_and, if_pos rfl, deliverWord, hkeyword]
  exact ite_self _

/-- A comma is delivered, whether it has been put back or not. -/
theorem yields_comma (hs : s.Faces expect (gap ++ ',' :: text)) (hgap : Gap gap) :
    ∃ place s', Yields registry s (.special .comma) place s' ∧ s'.pending = none ∧
      ∃ expect', s'.Faces expect' text ∧ (expect = false → expect' = false) := by
  obtain ⟨hpending, hmodes, gap', hgap', hrest⟩ | ⟨-, hmodes, place, back, hpending, hback, rfl⟩ |
    ⟨⟨⟩, -⟩ := hs.cases_of_gap hgap (by decide)
  · have hmodes' : (s.modes.start (Start.of ',')).Begun false := hmodes.start (by decide)
    refine ⟨_, _, .of_gap hgap' hpending hrest
      (.token (pull_comma hpending rfl hmodes.ignoreSpecial)), hpending, false, ?_, fun _ => rfl⟩
    exact .unread [] hpending rfl (by rintro _ ⟨⟩) hmodes'
  · have hpull : s.pull registry = ⟨.token (.special .comma) place none,
        { s with pending := none, lineStart := false }, []⟩ := by
      rw [pull, hpending]
      rfl
    exact ⟨place, _, .token hpull, rfl, expect, .unread back rfl rfl hback hmodes, id⟩

theorem put_back_comma (hs : s.Faces expect text) (hpending : s.pending = none) (hgap : Gap gap)
    (place : Location) :
    (s.putBack (.special .comma) place).Faces expect (gap ++ ',' :: text) := by
  cases hs with
  | unread read _ htext hread hmodes =>
      refine .comma gap read place rfl ?_ hgap hread hmodes
      rw [htext]
      rfl
  | comma _ _ _ hcomma => cases hpending.symm.trans hcomma
  | newline _ _ hnewline => cases hpending.symm.trans hnewline

/-- So is a line end. -/
theorem yields_newline (hs : s.Faces expect (gap ++ '\n' :: text)) (hgap : Gap gap) :
    ∃ place s', Yields registry s (.special .newline) place s' ∧ s'.rest = text := by
  obtain ⟨hpending, hmodes, gap', hgap', hrest⟩ | ⟨⟨⟩, -⟩ | ⟨-, place, hpending, rfl⟩ :=
    hs.cases_of_gap hgap (by decide)
  · exact ⟨_, _, .of_gap hgap' hpending hrest (.token (pull_newline hpending rfl)), rfl⟩
  · have hpull : s.pull registry = ⟨.token (.special .newline) place none,
        { s with pending := none, lineStart := true }, []⟩ := by
      rw [pull, hpending]
      rfl
    exact ⟨place, _, .token hpull, rfl⟩

theorem put_back_newline {rest : List Char} (hrest : s.rest = rest) (hgap : Gap gap)
    (place : Location) :
    (s.putBack (.special .newline) place).Faces expect (gap ++ '\n' :: rest) :=
  .newline gap place rfl (by rw [← hrest]; rfl) hgap

end Faces

/-! ### Rows of tokens -/

/-- The signs that end an argument. -/
inductive Closes : Special → Char → Prop where
  | comma : Closes .comma ','
  | newline : Closes .newline '\n'

/-- The sign at the end of an argument is delivered. If it is put back, the scanner faces the same
text as before. -/
theorem Faces.yields_closing {sign : Special} (hs : s.Faces false (gap ++ c :: text))
    (hgap : Gap gap) (hc : Closes sign c) :
    ∃ place s', Yields registry s (.special sign) place s' ∧
      (s'.putBack (.special sign) place).Faces false (gap ++ c :: text) := by
  cases hc with
  | comma =>
      obtain ⟨place, s', hyields, hpending, expect, hs', hexpect⟩ := hs.yields_comma hgap
      rw [hexpect rfl] at hs'
      exact ⟨place, s', hyields, hs'.put_back_comma hpending hgap place⟩
  | newline =>
      obtain ⟨place, s', hyields, hrest⟩ := hs.yields_newline hgap
      exact ⟨place, s', hyields, put_back_newline hrest hgap place⟩

/-- Tokens with blanks between them are delivered as they are written, and behind them the sign at
the end of the argument. -/
theorem Faces.delivers_spaced {sign : Special} {front back chars rest : List Char}
    {tokens : List Token} (hspaced : Token.Spaced registry tokens chars)
    (hapart : tokens.IsChain fun a b => a.IsComparison → ¬b.IsComparison)
    (hs : s.Faces false (front ++ (chars ++ (back ++ c :: rest)))) (hfront : Gap front)
    (hback : Gap back) (hc : Closes sign c) :
    ∃ delivered place final,
      Delivers registry s (delivered ++ [(.special sign, place)]) [] final ∧
      delivered.map Prod.fst = tokens ∧
      (final.putBack (.special sign) place).Faces false (back ++ c :: rest) := by
  have hblank : Start.of c ≠ .blank := by
    cases hc <;> decide
  have hedge : Lexeme.IsEdge c := by
    cases hc
    · exact Or.inr (Or.inl rfl)
    · exact Or.inr (Or.inr rfl)
  have hcompare : c ∉ Lexeme.comparisonChars := by
    cases hc <;> decide
  -- By induction on the tokens. A comparison takes the blanks behind it along, and therefore must
  -- not stand in front of another one.
  induction hspaced generalizing s front with
  | @single token chars h =>
      obtain ⟨place, s', hyields, hs'⟩ :=
        hs.yields_written hfront h hback hblank (fun _ => hedge) fun _ => hcompare
      obtain ⟨place', final, hclosing, hfinal⟩ := hs'.yields_closing hback hc
      exact ⟨[(token, place)], place', final,
        hyields.delivers h.is_offered
          (hclosing.delivers (Token.is_offered_special sign) (.nil final)), rfl, hfinal⟩
  | @cons token tokens chars gap text h hgap hsome hrest ih =>
      obtain ⟨next, others, written, more, rfl, rfl, hnext⟩ := hrest.exists_written
      obtain ⟨hnot, hapart⟩ := List.isChain_cons_cons.1 hapart
      obtain ⟨d, tail, rfl, hd, -, hd'⟩ := hnext.exists_cons
      have htext : chars ++ (gap ++ (d :: tail ++ more)) ++ (back ++ c :: rest) =
          chars ++ (gap ++ d :: (tail ++ more ++ (back ++ c :: rest))) := by simp
      rw [htext] at hs
      obtain ⟨place, s', hyields, hs'⟩ := hs.yields_written hfront h hgap hd.not_blank
        (fun hnil => absurd hnil hsome) fun hcompares => hd' (hnot hcompares)
      have htext' : gap ++ d :: (tail ++ more ++ (back ++ c :: rest)) =
          gap ++ (d :: tail ++ more ++ (back ++ c :: rest)) := by simp
      rw [htext'] at hs'
      obtain ⟨delivered, place', final, hdelivers, hdelivered, hfinal⟩ := ih hapart hs' hgap
      refine ⟨(token, place) :: delivered, place', final, hyields.delivers h.is_offered hdelivers,
        ?_, hfinal⟩
      rw [List.map_cons, hdelivered]

end Scanner

end QuestScript
