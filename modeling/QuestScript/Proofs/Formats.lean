import Mathlib.Data.Nat.Digits.Defs
import QuestScript.MessageFormat

/-!
# The grammar of message formats

A message format is a sequence of items: plain characters, pairs of percent signs, and directives,
which are a percent sign, an optional flag, a width, an optional precision and a letter. Each part
of a directive is as long as it can be. The text may end within a directive.

Every text is such a sequence (`exists_items`), and what a format asks for is read off its items
(`placeholders_items`).
-/

namespace QuestScript.MessageFormat

/-- The parts of a directive between the percent sign and the letter. -/
structure Fields where
  flag : Option Char
  width : List Char
  precision : Option (List Char)
  flag_eq : ∀ c ∈ flag, c = '0' ∨ c = ' '
  isDigit_width : ∀ c ∈ width, c.isDigit = true
  isDigit_precision : ∀ digits ∈ precision, ∀ c ∈ digits, c.isDigit = true

/-- A precision as it is written, behind a point. -/
def pointed : Option (List Char) → List Char
  | none => []
  | some digits => '.' :: digits

def Fields.chars (fields : Fields) : List Char :=
  fields.flag.toList ++ (fields.width ++ pointed fields.precision)

/-- A complete directive. No part of it could be continued by what stands behind that part. -/
structure Directive extends Fields where
  letter : Char
  flag_longest : flag = none →
    ∀ c ∈ (width ++ pointed precision ++ [letter]).head?, c ≠ '0' ∧ c ≠ ' '
  digits_longest : letter.isDigit = false
  point_longest : precision = none → letter ≠ '.'
  ne_percent : toFields.chars = [] → letter ≠ '%'

/-- A part of a message format. -/
inductive Item where
  | plain (c : Char) (h : c ≠ '%')
  | percent
  | directive (d : Directive)

/-- The letters that stand for a kind of value. -/
def letters : Placeholder → List Char
  | .string => ['s', 'S']
  | .integer => ['d', 'i']
  | .float => ['f', 'F', 'e', 'E', 'g', 'G', 'a', 'A']

/-- The number that decimal digits write. -/
def number (digits : List Char) : Nat :=
  Nat.ofDigits 10 (digits.reverse.map fun c => c.toNat - '0'.toNat)

namespace Directive

/-- The kind of value that is asked for, if the letter is one of those that ask. -/
def kind? (d : Directive) : Option Placeholder :=
  [Placeholder.string, .integer, .float].find? (d.letter ∈ letters ·)

/-- What a directive asks for. -/
def spec? (d : Directive) : Option Spec :=
  d.kind?.map fun kind =>
    { placeholder := kind
      pad := d.flag.getD ' '
      width := if d.width = [] then none else some (number d.width)
      precision := d.precision.map number }

/-- The letter of the signature that a directive stands for. -/
def sign? (d : Directive) : Option Char :=
  d.kind?.map fun
    | .string => 'S'
    | .integer => 'l'
    | .float => 'f'

end Directive

namespace Item

def chars : Item → List Char
  | plain c _ => [c]
  | percent => ['%', '%']
  | directive d => '%' :: (d.toFields.chars ++ [d.letter])

def spec? : Item → Option Spec
  | directive d => d.spec?
  | _ => none

def sign? : Item → Option Char
  | directive d => d.sign?
  | _ => none

end Item

/-- The text of items, behind which a directive may remain unfinished. -/
def text (items : List Item) (unfinished : Option Fields) : String :=
  String.ofList (items.flatMap Item.chars ++ unfinished.elim [] ('%' :: ·.chars))

/-! ### Reading the parts -/

theorem placeholder_of?_eq (c : Char) :
    placeholderOf? c = [Placeholder.string, .integer, .float].find? (c ∈ letters ·) := by
  unfold placeholderOf? letters
  split_ifs <;> simp_all

theorem value_of_digits_eq (digits : List Char) : Text.valueOfDigits digits = number digits := by
  induction h : digits.reverse generalizing digits with
  | nil => rw [List.reverse_eq_nil_iff.1 h]; rfl
  | cons c reversed ih =>
      obtain rfl : digits = reversed.reverse ++ [c] := by
        rw [← List.reverse_cons, ← h, List.reverse_reverse]
      have hfront := ih reversed.reverse (List.reverse_reverse _)
      rw [Text.valueOfDigits] at hfront ⊢
      rw [List.foldl_append, hfront]
      simp [number, Nat.ofDigits_cons]
      omega

theorem split_pad_append {flag : Option Char} {cs : List Char}
    (hflag : ∀ c ∈ flag, c = '0' ∨ c = ' ')
    (hcs : flag = none → ∀ c ∈ cs.head?, c ≠ '0' ∧ c ≠ ' ') :
    splitPad (flag.toList ++ cs) = (flag.getD ' ', cs) := by
  cases flag with
  | some c =>
      obtain rfl | rfl := hflag c rfl
      · rfl
      · rfl
  | none =>
      show splitPad cs = (' ', cs)
      unfold splitPad
      split
      · exact absurd rfl (hcs rfl _ rfl).1
      · exact absurd rfl (hcs rfl _ rfl).2
      · rfl

theorem take_while_digits {digits cs : List Char} (hdigits : ∀ c ∈ digits, c.isDigit = true)
    (hcs : ∀ c ∈ cs.head?, c.isDigit = false) :
    (digits ++ cs).takeWhile Char.isDigit = digits ∧
      (digits ++ cs).dropWhile Char.isDigit = cs := by
  have hstop : cs.takeWhile Char.isDigit = [] ∧ cs.dropWhile Char.isDigit = cs := by
    cases cs with
    | nil => exact ⟨rfl, rfl⟩
    | cons c cs => simp [hcs c rfl]
  rw [List.takeWhile_append_of_pos hdigits, List.dropWhile_append_of_pos hdigits, hstop.1, hstop.2]
  exact ⟨List.append_nil _, rfl⟩

theorem split_width_append {width cs : List Char} (hwidth : ∀ c ∈ width, c.isDigit = true)
    (hcs : ∀ c ∈ cs.head?, c.isDigit = false) :
    splitWidth (width ++ cs) = (if width = [] then none else some (number width), cs) := by
  obtain ⟨htake, hdrop⟩ := take_while_digits hwidth hcs
  unfold splitWidth
  rw [htake, hdrop]
  cases width with
  | nil => rfl
  | cons c width => simp [value_of_digits_eq]

theorem split_precision_append {precision : Option (List Char)} (cs : List Char)
    (hprecision : ∀ digits ∈ precision, ∀ c ∈ digits, c.isDigit = true)
    (hcs : ∀ c ∈ cs.head?, c.isDigit = false) (hpoint : precision = none → '.' ∉ cs.head?) :
    splitPrecision (pointed precision ++ cs) = (precision.map number, cs) := by
  cases precision with
  | some digits =>
      obtain ⟨htake, hdrop⟩ := take_while_digits (hprecision digits rfl) hcs
      rw [pointed, List.cons_append, splitPrecision, htake, hdrop, value_of_digits_eq]
      rfl
  | none =>
      show splitPrecision cs = (none, cs)
      unfold splitPrecision
      split
      · exact absurd rfl (hpoint rfl)
      · rfl

theorem is_digit_head_pointed (precision : Option (List Char)) (cs : List Char)
    (hcs : ∀ c ∈ cs.head?, c.isDigit = false) :
    ∀ c ∈ (pointed precision ++ cs).head?, c.isDigit = false := by
  cases precision with
  | none => exact hcs
  | some digits =>
      rintro _ ⟨⟩
      rfl

/-- A directive is read as what it asks for. -/
theorem read_spec?_directive (d : Directive) (rest : List Char) :
    readSpec? (d.toFields.chars ++ d.letter :: rest) = some (d.spec?, rest) := by
  have hletter : ∀ c ∈ (d.letter :: rest).head?, c.isDigit = false := by
    rintro _ ⟨⟩
    exact d.digits_longest
  have hpad : splitPad (d.flag.toList ++ (d.width ++ (pointed d.precision ++ d.letter :: rest))) =
      (d.flag.getD ' ', d.width ++ (pointed d.precision ++ d.letter :: rest)) := by
    refine split_pad_append d.flag_eq fun hnone c hc => d.flag_longest hnone c ?_
    cases hwidth : d.width <;> cases hprecision : d.precision <;>
      simpa [hwidth, hprecision, pointed] using hc
  have hwidth := split_width_append d.isDigit_width (is_digit_head_pointed d.precision _ hletter)
  have hprecision := split_precision_append _ d.isDigit_precision hletter fun hnone heq =>
    d.point_longest hnone (Option.some.inj heq)
  simp only [readSpec?, Fields.chars, List.append_assoc, hpad, hwidth, hprecision,
    placeholder_of?_eq]
  rfl

/-- A directive that the end of the text cuts off is nothing. -/
theorem read_spec?_unfinished (fields : Fields) : readSpec? fields.chars = none := by
  obtain ⟨flag, width, precision, hflag, hwidth, hprecision⟩ := fields
  -- Where no flag is written, the width may give its first digit for one.
  obtain ⟨width', hwidth', hpad⟩ : ∃ width' : List Char, (∀ c ∈ width', c.isDigit = true) ∧
      (splitPad (flag.toList ++ (width ++ pointed precision))).2 = width' ++ pointed precision := by
    cases flag with
    | some c => exact ⟨width, hwidth, by rw [split_pad_append hflag (by rintro ⟨⟩)]⟩
    | none =>
        cases width with
        | nil => cases precision <;> exact ⟨[], hwidth, rfl⟩
        | cons c width =>
            by_cases hzero : c = '0'
            · subst hzero
              exact ⟨width, fun c hc => hwidth c (List.mem_cons_of_mem _ hc), rfl⟩
            · have hblank : c ≠ ' ' := by
                rintro rfl
                exact absurd (hwidth ' ' List.mem_cons_self) (by decide)
              exact ⟨c :: width, hwidth, congrArg Prod.snd (split_pad_append hflag
                (by rintro - _ ⟨⟩; exact ⟨hzero, hblank⟩))⟩
  have hwidth := split_width_append hwidth' (is_digit_head_pointed precision [] (by simp))
  have hprecision := split_precision_append [] hprecision (by simp) (by simp)
  rw [List.append_nil] at hwidth hprecision
  simp only [readSpec?, Fields.chars, hpad, hwidth, hprecision]

/-! ### Reading the items -/

theorem Fields.ne_percent (fields : Fields) {c : Char} (hc : c ∈ fields.chars) : c ≠ '%' := by
  rintro rfl
  obtain ⟨flag, width, precision, hflag, hwidth, hprecision⟩ := fields
  have hdigit : ¬('%'.isDigit = true) := by decide
  simp only [chars, List.mem_append, Option.mem_toList] at hc
  obtain hc | hc | hc := hc
  · exact absurd (hflag _ hc) (by decide)
  · exact hdigit (hwidth _ hc)
  · cases precision with
    | none => cases hc
    | some digits =>
        obtain _ | ⟨_, hc⟩ := hc
        exact hdigit (hprecision digits rfl _ hc)

theorem placeholders_of_percent {cs : List Char} (h : '%' ∉ cs.head?) :
    placeholdersOf ('%' :: cs) = match readSpec? cs with
      | none => []
      | some (spec, rest) => spec.toList ++ placeholdersOf rest := by
  rw [placeholdersOf]
  · split <;> simp_all
  · rintro rest rfl
    exact h rfl

theorem placeholders_of_item (item : Item) (rest : List Char) :
    placeholdersOf (item.chars ++ rest) = item.spec?.toList ++ placeholdersOf rest := by
  cases item with
  | plain c h =>
      rw [Item.chars, List.singleton_append, placeholdersOf]
      · rfl
      · rintro rest' rfl
        exact absurd rfl h
      · rintro rfl
        exact absurd rfl h
  | percent =>
      rw [Item.chars, List.cons_append, List.singleton_append, placeholdersOf]
      rfl
  | directive d =>
      rw [Item.chars, List.cons_append, List.append_assoc, List.singleton_append,
        placeholders_of_percent, read_spec?_directive]
      · rfl
      · intro hhead
        cases hchars : d.toFields.chars with
        | nil =>
            rw [hchars] at hhead
            exact d.ne_percent hchars (Option.some.inj hhead)
        | cons c cs =>
            rw [hchars] at hhead
            exact d.toFields.ne_percent (hchars ▸ List.mem_cons_self) (Option.some.inj hhead)

theorem placeholders_of_items (items : List Item) (rest : List Char) :
    placeholdersOf (items.flatMap Item.chars ++ rest) =
      items.filterMap Item.spec? ++ placeholdersOf rest := by
  induction items with
  | nil => rfl
  | cons item items ih =>
      rw [List.flatMap_cons, List.append_assoc, placeholders_of_item, ih, List.filterMap_cons]
      cases item.spec? <;> rfl

theorem placeholders_of_unfinished (unfinished : Option Fields) :
    placeholdersOf (unfinished.elim [] ('%' :: ·.chars)) = [] := by
  cases unfinished with
  | none => rw [Option.elim_none, placeholdersOf]
  | some fields =>
      rw [Option.elim_some, placeholders_of_percent, read_spec?_unfinished]
      intro hhead
      exact fields.ne_percent (List.mem_of_mem_head? hhead) rfl

theorem placeholders_text (items : List Item) (unfinished : Option Fields) :
    placeholders (text items unfinished) = items.filterMap Item.spec? := by
  rw [placeholders, text, String.toList_ofList, placeholders_of_items, placeholders_of_unfinished,
    List.append_nil]

theorem letter_spec? (item : Item) : item.spec?.map (·.placeholder.letter) = item.sign? := by
  cases item with
  | directive d =>
      show Option.map _ (Option.map _ d.kind?) = Option.map _ d.kind?
      rw [Option.map_map]
      congr 1
  | _ => rfl

/-- What a format asks for is what its directives ask for, in their order, and the signature is the
word of their letters. What stands behind complete items is read as if it stood alone. -/
theorem placeholders_items (items : List Item) (unfinished : Option Fields) :
    placeholders (text items unfinished) = items.filterMap Item.spec? ∧
      signature (text items unfinished) = String.ofList (items.filterMap Item.sign?) ∧
      ∀ rest, signature (text items none ++ rest) =
        signature (text items none) ++ signature rest := by
  refine ⟨placeholders_text items unfinished, ?_, fun rest => ?_⟩
  · rw [signature, placeholders_text, List.map_filterMap]
    simp only [letter_spec?]
  · have hchars : (text items none ++ rest).toList = items.flatMap Item.chars ++ rest.toList := by
      simp [text]
    rw [signature, placeholders, hchars, placeholders_of_items, List.map_append,
      String.ofList_append,
      signature, signature, placeholders_text, placeholders]

/-! ### Every text is a format -/

/-- The parts of a directive that a text starts with, each as long as it can be. -/
theorem exists_fields (cs : List Char) : ∃ (fields : Fields) (rest : List Char),
    cs = fields.chars ++ rest ∧
      (fields.flag = none →
        ∀ c ∈ (fields.width ++ pointed fields.precision ++ rest).head?, c ≠ '0' ∧ c ≠ ' ') ∧
      (∀ c ∈ rest.head?, c.isDigit = false) ∧
      (fields.precision = none → '.' ∉ rest.head?) := by
  obtain ⟨flag, cs, rfl, hflag, hnone⟩ : ∃ (flag : Option Char) (cs' : List Char),
      cs = flag.toList ++ cs' ∧ (∀ c ∈ flag, c = '0' ∨ c = ' ') ∧
        (flag = none → ∀ c ∈ cs'.head?, c ≠ '0' ∧ c ≠ ' ') := by
    rcases cs with _ | ⟨c, cs⟩
    · exact ⟨none, [], rfl, by simp, by simp⟩
    · by_cases hc : c = '0' ∨ c = ' '
      · exact ⟨some c, cs, rfl, by rintro _ ⟨⟩; exact hc, by rintro ⟨⟩⟩
      · exact ⟨none, c :: cs, rfl, by simp, by rintro - _ ⟨⟩; exact not_or.1 hc⟩
  have hwidth (cs : List Char) : ∀ c ∈ cs.takeWhile Char.isDigit, c.isDigit = true :=
    List.all_eq_true.1 List.all_takeWhile
  have hstop (cs : List Char) : ∀ c ∈ (cs.dropWhile Char.isDigit).head?, c.isDigit = false := by
    intro c hc
    have hnot := List.head?_dropWhile_not Char.isDigit cs
    rw [hc] at hnot
    simpa using hnot
  obtain ⟨precision, rest, hrest, hprecision, hdigit, hpoint⟩ :
      ∃ (precision : Option (List Char)) (rest : List Char),
        cs.dropWhile Char.isDigit = pointed precision ++ rest ∧
          (∀ digits ∈ precision, ∀ c ∈ digits, c.isDigit = true) ∧
          (∀ c ∈ rest.head?, c.isDigit = false) ∧ (precision = none → '.' ∉ rest.head?) := by
    by_cases hpoint : '.' ∈ (cs.dropWhile Char.isDigit).head?
    · obtain ⟨rest, hrest⟩ := List.head?_eq_some_iff.1 hpoint
      refine ⟨some (rest.takeWhile Char.isDigit), rest.dropWhile Char.isDigit, ?_, ?_, hstop rest,
        by rintro ⟨⟩⟩
      · rw [hrest, pointed, List.cons_append, List.takeWhile_append_dropWhile]
      · rintro _ ⟨⟩
        exact hwidth rest
    · exact ⟨none, cs.dropWhile Char.isDigit, rfl, by simp, hstop cs, fun _ => hpoint⟩
  have hsplit : cs.takeWhile Char.isDigit ++ (pointed precision ++ rest) = cs := by
    rw [← hrest, List.takeWhile_append_dropWhile]
  refine ⟨⟨flag, cs.takeWhile Char.isDigit, precision, hflag, hwidth cs, hprecision⟩, rest, ?_, ?_,
    hdigit, hpoint⟩
  · rw [Fields.chars, List.append_assoc, List.append_assoc, hsplit]
  · rwa [List.append_assoc, hsplit]

theorem exists_items_of_length (n : Nat) : ∀ cs : List Char, cs.length ≤ n →
    ∃ (items : List Item) (unfinished : Option Fields),
      cs = items.flatMap Item.chars ++ unfinished.elim [] ('%' :: ·.chars) := by
  have hitem {cs : List Char} (item : Item) : (∃ (items : List Item) (unfinished : Option Fields),
      cs = items.flatMap Item.chars ++ unfinished.elim [] ('%' :: ·.chars)) →
      ∃ (items : List Item) (unfinished : Option Fields),
        item.chars ++ cs = items.flatMap Item.chars ++ unfinished.elim [] ('%' :: ·.chars) := by
    rintro ⟨items, unfinished, rfl⟩
    exact ⟨item :: items, unfinished, by rw [List.flatMap_cons, List.append_assoc]⟩
  induction n with
  | zero =>
      intro cs hcs
      exact ⟨[], none, List.eq_nil_of_length_eq_zero (Nat.le_zero.1 hcs)⟩
  | succ n ih =>
      intro cs hcs
      rcases cs with _ | ⟨c, cs⟩
      · exact ⟨[], none, rfl⟩
      by_cases hc : c = '%'
      · subst hc
        obtain ⟨fields, rest, rfl, hflag, hdigit, hpoint⟩ := exists_fields cs
        rcases rest with _ | ⟨letter, rest⟩
        · exact ⟨[], some fields, by simp⟩
        have hrest := ih rest (by simp at hcs; omega)
        -- Two percent signs are a pair only if nothing stands between them.
        by_cases hpercent : fields.chars = [] ∧ letter = '%'
        · obtain ⟨hchars, rfl⟩ := hpercent
          rw [hchars]
          exact hitem .percent hrest
        · have hdirective := hitem (.directive ⟨fields, letter, fun h c hc => hflag h c ?_,
            hdigit letter rfl, fun h heq => hpoint h (congrArg some heq),
            fun h heq => hpercent ⟨h, heq⟩⟩) hrest
          · simpa [Item.chars] using hdirective
          · cases hwidth : fields.width <;> cases hprecision : fields.precision <;>
              simpa [hwidth, hprecision, pointed] using hc
      · exact hitem (.plain c hc) (ih cs (by simpa using hcs))

/-- Every text is a sequence of items, behind which a directive may remain unfinished. -/
theorem exists_items (format : String) : ∃ items unfinished, format = text items unfinished := by
  obtain ⟨items, unfinished, h⟩ := exists_items_of_length _ format.toList (Nat.le_refl _)
  exact ⟨items, unfinished, by rw [text, ← h, String.ofList_toList]⟩

end QuestScript.MessageFormat
