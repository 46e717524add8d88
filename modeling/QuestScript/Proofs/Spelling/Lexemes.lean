import QuestScript.Proofs.Lexemes
import QuestScript.Proofs.Spelling.Basic

/-!
# Lexemes of texts that are spelled alike

Texts that are alike character by character fall into the same lexemes (`Lexeme.read_beside`). It is
enough that they are alike up to the end of the line, where the one may have a carriage return in
front of the line end. Comments and quoted texts are left out: the first take a carriage return in,
and in the second any difference would show.
-/

namespace QuestScript

/-! ### Texts side by side -/

/-- There is nothing more on the line, but for a carriage return. -/
def AtLineEnd (text : List Char) : Prop :=
  ∀ c ∈ text.head?, c = '\n' ∨ c = '\r'

theorem AtLineEnd.eq_nil_or {text : List Char} (h : AtLineEnd text) {p : Char → Bool}
    (hend : p '\n' = false ∧ p '\r' = false) :
    text = [] ∨ ∃ c rest, text = c :: rest ∧ p c = false := by
  cases text with
  | nil => exact Or.inl rfl
  | cons c rest =>
      refine Or.inr ⟨c, rest, rfl, ?_⟩
      obtain rfl | rfl := h c rfl
      · exact hend.1
      · exact hend.2

namespace Spelling

/-- Texts that are alike character by character up to the end of a line. -/
inductive Beside (sp : Spelling) : List Char → List Char → Prop where
  | stop {rest rest' : List Char} (h : AtLineEnd rest) (h' : AtLineEnd rest') :
      Beside sp rest rest'
  | cons {a b : Char} {rest rest' : List Char} (h : sp.alike a b) (hrest : Beside sp rest rest') :
      Beside sp (a :: rest) (b :: rest')

namespace Beside

variable {sp : Spelling} {a b : Char} {rest rest' : List Char} {p : Char → Bool}

theorem any_head?_eq {value : Bool} (hp : ∀ c, c.isAlpha = true → p c = value)
    (hend : p '\n' = false ∧ p '\r' = false) (h : sp.Beside rest rest') :
    rest'.head?.any p = rest.head?.any p := by
  have hstop : ∀ text : List Char, AtLineEnd text → text.head?.any p = false := by
    intro text htext
    obtain rfl | ⟨c, text, rfl, hc⟩ := htext.eq_nil_or hend
    · rfl
    · exact hc
  cases h with
  | stop h h' => rw [hstop _ h, hstop _ h']
  | cons h _ => exact sp.class_eq hp h

theorem take_while {value : Bool} (hp : ∀ c, c.isAlpha = true → p c = value)
    (hend : p '\n' = false ∧ p '\r' = false) (h : sp.Beside rest rest') :
    List.Forall₂ sp.alike (rest.takeWhile p) (rest'.takeWhile p) := by
  have hstop : ∀ text : List Char, AtLineEnd text → text.takeWhile p = [] := by
    intro text htext
    obtain rfl | ⟨c, text, rfl, hc⟩ := htext.eq_nil_or hend
    · rfl
    · simp [hc]
  induction h with
  | stop h h' =>
      rw [hstop _ h, hstop _ h']
      exact .nil
  | cons h _ ih =>
      rw [List.takeWhile_cons, List.takeWhile_cons, sp.class_eq hp h]
      split
      · exact .cons h ih
      · exact .nil

theorem drop_while {value : Bool} (hp : ∀ c, c.isAlpha = true → p c = value)
    (hend : p '\n' = false ∧ p '\r' = false) (h : sp.Beside rest rest') :
    sp.Beside (rest.dropWhile p) (rest'.dropWhile p) := by
  have hstop : ∀ text : List Char, AtLineEnd text → text.dropWhile p = text := by
    intro text htext
    obtain rfl | ⟨c, text, rfl, hc⟩ := htext.eq_nil_or hend
    · rfl
    · simp [hc]
  induction h with
  | stop h h' =>
      rw [hstop _ h, hstop _ h']
      exact .stop h h'
  | cons h hrest ih =>
      rw [List.dropWhile_cons, List.dropWhile_cons, sp.class_eq hp h]
      split
      · exact ih
      · exact .cons h hrest

/-- What is taken up to the next letter is the same in both texts. -/
theorem take_while_eq (hp : ∀ c, c.isAlpha = true → p c = false)
    (hend : p '\n' = false ∧ p '\r' = false) (h : sp.Beside rest rest') :
    rest'.takeWhile p = rest.takeWhile p := by
  have hfilter := sp.filter_eq hp (h.take_while hp hend)
  have hself : ∀ text : List Char, (text.takeWhile p).filter p = text.takeWhile p := fun text =>
    List.filter_eq_self.2 fun _ => List.mem_takeWhile_imp
  rwa [hself, hself] at hfilter

end Beside

end Spelling

/-! ### Reading lexemes side by side -/

/-- The same lexeme, with texts that are alike. -/
def Spelling.Reads (sp : Spelling) (r r' : Lexeme × List Char) : Prop :=
  r'.1 = r.1 ∧ List.Forall₂ sp.alike r.2 r'.2

namespace Lexeme

variable {sp : Spelling} {c c' : Char} {rest rest' : List Char}

theorem continues_name_beside (tolerant : Bool) (hc : sp.alike c c')
    (hrest : sp.Beside rest rest') :
    continuesName tolerant c' rest' = continuesName tolerant c rest := by
  have hhead : rest'.head?.any isNameChar = rest.head?.any isNameChar :=
    hrest.any_head?_eq (fun _ => is_name_char_of_is_alpha) (by decide)
  unfold continuesName
  rw [hhead]
  obtain rfl | ⟨hletter, hletter'⟩ := sp.eq_or_is_alpha hc
  · rfl
  · rw [is_name_char_of_is_alpha hletter, is_name_char_of_is_alpha hletter']
    rfl

theorem name_run_beside (tolerant : Bool) (h : sp.Beside rest rest') :
    List.Forall₂ sp.alike (nameRun tolerant rest) (nameRun tolerant rest') := by
  have hstop : ∀ text : List Char, AtLineEnd text → nameRun tolerant text = [] := by
    intro text htext
    obtain rfl | ⟨c, text, rfl, hc⟩ :=
      htext.eq_nil_or (p := fun c => isNameChar c || c == '-' || c == '.') (by decide)
    · rfl
    · have hends : continuesName tolerant c text = false := by
        simp only [Bool.or_eq_false_iff] at hc
        simp [continuesName, hc]
      rw [nameRun, hends]
      rfl
  induction h with
  | stop h h' =>
      rw [hstop _ h, hstop _ h']
      exact .nil
  | cons h hrest ih =>
      rw [nameRun, nameRun, continues_name_beside tolerant h hrest]
      split
      · exact .cons h ih
      · exact .nil

theorem read_fraction_beside (whole : List Char) (h : sp.Beside rest rest') :
    sp.Reads (readFraction whole rest) (readFraction whole rest') := by
  have hclass : ∀ c : Char, c.isAlpha = true →
      (c.isDigit || Text.isAlphabetic c || c == '_') = true := by
    intro c hc
    simp [Text.is_alphabetic_of_is_alpha hc]
  have hrun := h.take_while hclass (by decide)
  have hfraction := sp.filter_eq (fun _ => Text.is_digit_of_is_alpha) hrun
  have hdigits := sp.all_eq (fun _ => Text.is_digit_of_is_alpha) hrun
  unfold readFraction
  dsimp only
  rw [hfraction, hdigits]
  split
  · exact ⟨rfl, hrun⟩
  · exact ⟨rfl, hrun⟩

theorem read_number_beside (tolerant : Bool) (first : Char) (h : sp.Beside rest rest') :
    sp.Reads (readNumber tolerant first rest) (readNumber tolerant first rest') := by
  have hdigits := h.take_while (fun _ => Text.is_digit_of_is_alpha) (by decide)
  have hsame := h.take_while_eq (fun _ => Text.is_digit_of_is_alpha) (by decide)
  have hbehind := h.drop_while (fun _ => Text.is_digit_of_is_alpha) (by decide)
  unfold readNumber
  dsimp only
  rw [hbehind.any_head?_eq (fun _ => is_name_char_of_is_alpha) (by decide)]
  generalize rest.dropWhile Char.isDigit = behind at hbehind
  generalize rest'.dropWhile Char.isDigit = behind' at hbehind
  split
  · exact ⟨rfl, List.rel_append hdigits (name_run_beside tolerant hbehind)⟩
  -- A point behind the digits is in both texts.
  cases hbehind with
  | stop hend hend' =>
      have hne : ∀ more, ¬AtLineEnd ('.' :: more) := by
        intro more hmore
        obtain h | h := hmore '.' rfl
        · cases h
        · cases h
      split
      · exact absurd hend (hne _)
      split
      · exact absurd hend' (hne _)
      · exact ⟨rfl, hdigits⟩
  | @cons a b more more' hab hmore =>
      by_cases hpoint : a = '.'
      · subst hpoint
        obtain rfl := sp.eq_of_sign hab rfl
        obtain ⟨hlexeme, hrun⟩ := read_fraction_beside (first :: rest.takeWhile Char.isDigit)
          hmore
        rw [hsame] at hdigits ⊢
        exact ⟨hlexeme, List.rel_append hdigits (.cons hab hrun)⟩
      · have hpoint' : b ≠ '.' := by
          rintro rfl
          obtain h | ⟨-, h⟩ := sp.eq_or_is_alpha hab
          · exact hpoint h.symm
          · cases h
        split
        next heq => exact absurd (List.cons.inj heq).1 hpoint
        split
        next heq => exact absurd (List.cons.inj heq).1 hpoint'
        · exact ⟨rfl, hdigits⟩

theorem read_comparison_beside (first : Char) (h : sp.Beside rest rest') :
    sp.Reads (readComparison first rest) (readComparison first rest') := by
  have hclass : ∀ c : Char, c.isAlpha = true →
      (c == '=' || c == '!' || c == '<' || c == '>' || isInnerBlank c) = false := by
    intro c hc
    simp [isInnerBlank, Text.ne_of_is_alpha hc]
  have hrun := h.take_while hclass (by decide)
  unfold readComparison
  dsimp only
  rw [h.take_while_eq hclass (by decide)] at hrun ⊢
  split
  · exact ⟨rfl, hrun⟩
  · exact ⟨rfl, hrun⟩

theorem read_special_beside (modes : Modes) (h : sp.Beside rest rest') :
    sp.Reads (readSpecial modes c rest) (readSpecial modes c rest') := by
  have hdigit : rest'.head?.any Char.isDigit = rest.head?.any Char.isDigit :=
    h.any_head?_eq (fun _ => Text.is_digit_of_is_alpha) (by decide)
  -- Behind a hyphen the next character decides, so both texts have to have the same there.
  have harrow : rest.head? = some '>' ∧ rest'.head? = some '>' ∧ sp.alike '>' '>' ∨
      rest.head? ≠ some '>' ∧ rest'.head? ≠ some '>' := by
    cases h with
    | stop h h' =>
        have hne : ∀ text, AtLineEnd text → text.head? ≠ some '>' := by
          intro text htext heq
          obtain h | h := htext '>' heq
          · cases h
          · cases h
        exact Or.inr ⟨hne _ h, hne _ h'⟩
    | @cons a b _ _ hab _ =>
        by_cases ha : a = '>'
        · subst ha
          obtain rfl := sp.eq_of_sign hab rfl
          exact Or.inl ⟨rfl, rfl, hab⟩
        · right
          constructor
          · simpa using ha
          · intro hb
            obtain rfl := Option.some.inj hb
            obtain h | ⟨-, h⟩ := sp.eq_or_is_alpha hab
            · exact ha h.symm
            · cases h
  have hnil : ∀ lexeme : Lexeme, sp.Reads (lexeme, []) (lexeme, []) := fun _ =>
    ⟨rfl, .nil⟩
  have hname : sp.Reads (.signedWord, nameRun true rest) (.signedWord, nameRun true rest') :=
    ⟨rfl, name_run_beside true h⟩
  have hite : ∀ (q : Prop) [Decidable q] {x x' y y' : Lexeme × List Char},
      sp.Reads x x' → sp.Reads y y' →
      sp.Reads (if q then x else y) (if q then x' else y') := by
    intro q _ x x' y y' hx hy
    split
    · exact hx
    · exact hy
  have hclass : ∀ c : Char, c.isAlpha = true → (!endsStrays c) = false := by
    intro c hc
    rw [ends_strays_of_is_alpha hc]
    rfl
  unfold readSpecial
  rw [hdigit]
  refine hite _ (hnil _) (hite _ ⟨rfl, h.take_while hclass (by decide)⟩ ?_)
  refine hite _ (hnil _) (hite _ (hnil _) (hite _ ?_ (hite _ (hnil _) (hite _ ?_ ?_))))
  · exact hite _ (read_fraction_beside [] h) (hite _ hname (hnil _))
  · obtain ⟨harrow, harrow', hself⟩ | ⟨harrow, harrow'⟩ := harrow
    · rw [if_pos harrow, if_pos harrow']
      exact ⟨rfl, .cons hself .nil⟩
    · rw [if_neg harrow, if_neg harrow']
      exact hite _ hname (hnil _)
  · exact hite _ (read_comparison_beside c h)
      (hite _ (hnil _) (hite _ (hnil _) (hite _ (hnil _) (hnil _))))

theorem start_eq (hc : sp.alike c c') : Start.of c' = Start.of c := by
  obtain rfl | ⟨hletter, hletter'⟩ := sp.eq_or_is_alpha hc
  · rfl
  · rw [Start.of_is_alpha hletter, Start.of_is_alpha hletter']

/-- Texts that are spelled alike start with the same lexeme. -/
theorem read_beside (modes : Modes) (hc : sp.alike c c') (hquote : c ≠ '"')
    (hcomment : Start.of c ≠ .comment) (h : sp.Beside rest rest') :
    sp.Reads (read modes c rest) (read modes c' rest') := by
  have hquote' : c' ≠ '"' := by
    rintro rfl
    obtain h | ⟨-, h⟩ := sp.eq_or_is_alpha hc
    · exact hquote h.symm
    · cases h
  have hsign : Start.of c ≠ .word → c' = c := by
    intro hstart
    obtain rfl | ⟨hletter, -⟩ := sp.eq_or_is_alpha hc
    · rfl
    · exact absurd (Start.of_is_alpha hletter) hstart
  have hname : sp.Reads (.word, nameRun modes.tolerantNames rest)
      (.word, nameRun modes.tolerantNames rest') :=
    ⟨rfl, name_run_beside _ h⟩
  unfold read
  rw [start_eq hc]
  cases hstart : Start.of c with
  | comment => exact absurd hstart hcomment
  | blank => exact ⟨rfl, .nil⟩
  | word =>
      dsimp only
      rw [if_neg hquote, if_neg hquote']
      exact hname
  | digit =>
      obtain rfl := hsign (by rw [hstart]; decide)
      dsimp only
      split
      · exact hname
      · exact read_number_beside _ _ h
  | special =>
      obtain rfl := hsign (by rw [hstart]; decide)
      exact read_special_beside modes h

/-! ### What lexemes consist of -/

/-- What is in the text of a lexeme. No token but a quoted text has a percent sign. -/
def Consists (text : List Char) : Lexeme → Prop
  | .integer => ∀ c ∈ text, c.isDigit = true
  | .word | .signedWord | .decimal _ _ | .sign _ | .comparison _ _ => '%' ∉ text
  | .quoted _ _ | .strayQuote | .openQuote => text.head? = some '"'
  | .comment => text.head? = some ';'
  | .blank | .brokenDecimal | .strays | .unknown => True

theorem percent_not_mem_take_while {p : Char → Bool} (hp : p '%' = false) :
    '%' ∉ rest.takeWhile p := by
  intro hmem
  cases hp.symm.trans (List.mem_takeWhile_imp hmem)

theorem percent_not_mem_name_run (tolerant : Bool) : '%' ∉ nameRun tolerant rest := by
  induction rest with
  | nil => rintro ⟨⟩
  | cons c rest ih =>
      rw [nameRun]
      split
      next hc =>
        intro hmem
        obtain rfl | hmem := List.mem_cons.1 hmem
        · simp [continuesName, show isNameChar '%' = false by decide] at hc
        · exact ih hmem
      · rintro ⟨⟩

theorem percent_not_mem_cons (hc : c ≠ '%') {text : List Char} (h : '%' ∉ text) :
    '%' ∉ c :: text := by
  intro hmem
  obtain heq | hmem := List.mem_cons.1 hmem
  · exact hc heq.symm
  · exact h hmem

theorem consists_read_fraction (whole : List Char) (hc : c ≠ '%') {before : List Char}
    (hbefore : '%' ∉ before) :
    Consists (c :: (before ++ (readFraction whole rest).2)) (readFraction whole rest).1 := by
  unfold readFraction
  dsimp only
  split
  · trivial
  · refine percent_not_mem_cons hc fun hmem => ?_
    obtain hmem | hmem := List.mem_append.1 hmem
    · exact hbefore hmem
    · exact percent_not_mem_take_while (by decide) hmem

theorem consists_read_number (tolerant : Bool) (hc : c.isDigit = true) :
    Consists (c :: (readNumber tolerant c rest).2) (readNumber tolerant c rest).1 := by
  have hpercent : c ≠ '%' := by
    rintro rfl
    cases hc
  have hdigits : '%' ∉ rest.takeWhile Char.isDigit := percent_not_mem_take_while rfl
  unfold readNumber
  dsimp only
  split
  · refine percent_not_mem_cons hpercent fun hmem => ?_
    obtain hmem | hmem := List.mem_append.1 hmem
    · exact hdigits hmem
    · exact percent_not_mem_name_run _ hmem
  split
  next more heq =>
    have hbefore : '%' ∉ rest.takeWhile Char.isDigit ++ ['.'] := by
      simpa using hdigits
    rw [List.append_cons]
    exact consists_read_fraction _ hpercent hbefore
  · intro x hmem
    obtain rfl | hmem := List.mem_cons.1 hmem
    · exact hc
    · exact List.mem_takeWhile_imp hmem

theorem consists_read_comparison (hc : c ≠ '%') :
    Consists (c :: (readComparison c rest).2) (readComparison c rest).1 := by
  unfold readComparison
  dsimp only
  split
  · exact percent_not_mem_cons hc (percent_not_mem_take_while (by decide))
  · trivial

theorem consists_read_special (modes : Modes) :
    Consists (c :: (readSpecial modes c rest).2) (readSpecial modes c rest).1 := by
  have hite : ∀ (q : Prop) [Decidable q] {x y : Lexeme × List Char},
      (q → Consists (c :: x.2) x.1) → (¬q → Consists (c :: y.2) y.1) →
      Consists (c :: (if q then x else y).2) (if q then x else y).1 := by
    intro q _ x y hx hy
    split
    next hq => exact hx hq
    next hq => exact hy hq
  have hsign : ∀ {d : Char} {special : Special}, d ≠ '%' → c = d →
      Consists (c :: []) (.sign special) := by
    rintro d special hd rfl
    exact percent_not_mem_cons hd (by rintro ⟨⟩)
  unfold readSpecial
  refine hite _ (hsign (by decide)) fun _ => hite _ (fun _ => trivial) fun _ => ?_
  refine hite _ (fun h => h.elim (hsign (by decide)) (hsign (by decide))) fun _ => ?_
  refine hite _ (fun h => h.elim (hsign (by decide)) (hsign (by decide))) fun _ => ?_
  refine hite _ (fun hc => ?_) fun _ => hite _ (hsign (by decide)) fun _ =>
    hite _ (fun hc => ?_) fun _ => hite _ (fun hc => consists_read_comparison ?_) fun _ => ?_
  · have hpercent : c ≠ '%' := by rw [hc]; decide
    exact hite _ (fun _ => consists_read_fraction [] hpercent List.not_mem_nil) fun _ =>
      hite _ (fun _ => percent_not_mem_cons hpercent (percent_not_mem_name_run true)) fun _ =>
        hsign (by decide) hc
  · have hpercent : c ≠ '%' := by rw [hc]; decide
    exact hite _ (fun _ => percent_not_mem_cons hpercent (by decide)) fun _ =>
      hite _ (fun _ => percent_not_mem_cons hpercent (percent_not_mem_name_run true)) fun _ =>
        hsign (by decide) hc
  · obtain rfl | rfl | rfl | rfl := hc <;> decide
  · exact hite _ (hsign (by decide)) fun _ => hite _ (hsign (by decide)) fun _ =>
      hite _ (hsign (by decide)) fun _ => trivial

theorem consists_read (modes : Modes) (c : Char) (rest : List Char) :
    Consists (c :: (read modes c rest).2) (read modes c rest).1 := by
  have hpercent : Start.of c ≠ .special → c ≠ '%' := by
    rintro hstart rfl
    exact hstart (by decide)
  unfold read
  cases hstart : Start.of c with
  | comment =>
      have hc : c = ';' := by
        unfold Start.of at hstart
        split_ifs at hstart
        assumption
      exact congrArg some hc
  | blank => trivial
  | word =>
      dsimp only
      split
      next hc =>
        have hhead : ∀ text : List Char, (c :: text).head? = some '"' := fun _ => congrArg some hc
        unfold readQuoted
        dsimp only
        split
        · exact hhead _
        · split <;> exact hhead _
        · exact hhead _
      · exact percent_not_mem_cons (hpercent (by rw [hstart]; decide)) (percent_not_mem_name_run _)
  | digit =>
      dsimp only
      split
      · exact percent_not_mem_cons (hpercent (by rw [hstart]; decide)) (percent_not_mem_name_run _)
      · refine consists_read_number _ ?_
        unfold Start.of at hstart
        split_ifs at hstart
        assumption
  | special => exact consists_read_special modes

end Lexeme

end QuestScript
