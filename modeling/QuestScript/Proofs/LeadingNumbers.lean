import Mathlib.Computability.RegularExpressions
import QuestScript.Expression.Number
import QuestScript.Proofs.Formats
import QuestScript.Text.Utf8

/-!
# The longest start that is a number

`LeadingNumber.grammar` is the written form of a number: digits with or without a point and with or
without an exponent. The main statement, `leading_value_longest`, says that the number at the start
of a word is its longest start of that form, and that a word has the value zero without a number
exactly if no start has it. A reader that finds the end of the number by offsets into the bytes of
the word, and fails outside of them (`Bytes.numberEnd?`), finds the same end and never fails.
-/

namespace QuestScript

namespace LeadingNumber

open RegularExpression

/-! ### The written form -/

/-- One of some characters. -/
def anyOf (cs : List Char) : RegularExpression Char :=
  cs.foldr (fun c others => char c + others) 0

def decimalDigits : List Char := ['0', '1', '2', '3', '4', '5', '6', '7', '8', '9']

def digit : RegularExpression Char := anyOf decimalDigits

def optionalSign : RegularExpression Char := 1 + anyOf ['+', '-']

/-- Digits with or without a point, or a point with digits behind it. -/
def mantissa : RegularExpression Char :=
  digit * star digit * (1 + char '.' * star digit) + char '.' * (digit * star digit)

/-- The written form of a number. -/
def grammar : RegularExpression Char :=
  optionalSign * mantissa * (1 + anyOf ['e', 'E'] * (optionalSign * (digit * star digit)))

theorem mem_any_of {cs text : List Char} : text ∈ (anyOf cs).matches' ↔ ∃ c ∈ cs, text = [c] := by
  induction cs with
  | nil => simp [anyOf, Language.notMem_zero]
  | cons d cs ih =>
      have hmem : text ∈ (anyOf (d :: cs)).matches' ↔ text = [d] ∨ text ∈ (anyOf cs).matches' := by
        rfl
      rw [hmem, ih]
      simp

theorem is_digit_iff_to_nat {c : Char} : c.isDigit = true ↔ 48 ≤ c.toNat ∧ c.toNat < 58 := by
  unfold Char.isDigit
  rw [Bool.and_eq_true, decide_eq_true_eq, decide_eq_true_eq, ge_iff_le, UInt32.le_iff_toNat_le,
    UInt32.le_iff_toNat_le, Nat.lt_succ_iff]
  rfl

theorem is_digit_iff_mem {c : Char} : c.isDigit = true ↔ c ∈ decimalDigits := by
  constructor
  · intro h
    have hrange : ∀ n < 58, 48 ≤ n → Char.ofNat n ∈ decimalDigits := by decide
    obtain ⟨hlow, hhigh⟩ := is_digit_iff_to_nat.1 h
    rw [← Char.ofNat_toNat c]
    exact hrange c.toNat hhigh hlow
  · have hall : ∀ d ∈ decimalDigits, d.isDigit = true := List.all_eq_true.1 (by decide)
    exact hall c

/-- The text consists of digits. -/
def IsDigits (text : List Char) : Prop :=
  ∀ c ∈ text, c.isDigit = true

theorem mem_star_digit {text : List Char} : text ∈ (star digit).matches' ↔ IsDigits text := by
  rw [matches'_star, Language.mem_kstar]
  constructor
  · rintro ⟨pieces, rfl, hpieces⟩ c hc
    obtain ⟨piece, hpiece, hc⟩ := List.mem_flatten.1 hc
    obtain ⟨d, hd, rfl⟩ := mem_any_of.1 (hpieces piece hpiece)
    rw [List.mem_singleton.1 hc]
    exact is_digit_iff_mem.2 hd
  · intro h
    refine ⟨text.map ([·]), by simp [← List.flatMap_def], ?_⟩
    intro piece hpiece
    obtain ⟨c, hc, rfl⟩ := List.mem_map.1 hpiece
    exact mem_any_of.2 ⟨c, is_digit_iff_mem.1 (h c hc), rfl⟩

theorem mem_digits {text : List Char} :
    text ∈ (digit * star digit).matches' ↔ IsDigits text ∧ text ≠ [] := by
  rw [matches'_mul, Language.mem_mul]
  constructor
  · rintro ⟨first, hfirst, others, hothers, rfl⟩
    obtain ⟨c, hc, rfl⟩ := mem_any_of.1 hfirst
    refine ⟨fun d hd => ?_, List.cons_ne_nil _ _⟩
    rcases List.mem_cons.1 hd with rfl | hd
    · exact is_digit_iff_mem.2 hc
    · exact mem_star_digit.1 hothers d hd
  · rintro ⟨hdigits, hne⟩
    obtain ⟨c, text, rfl⟩ := List.exists_cons_of_ne_nil hne
    obtain ⟨hc, htext⟩ := List.forall_mem_cons.1 hdigits
    exact ⟨[c], mem_any_of.2 ⟨c, is_digit_iff_mem.1 hc, rfl⟩, text, mem_star_digit.2 htext, rfl⟩

/-! ### The parts of a number -/

/-- The text is a sign or empty. -/
def IsSign (text : List Char) : Prop :=
  text = [] ∨ text = ['+'] ∨ text = ['-']

/-- The text is a point with digits behind it, or empty. -/
def IsFraction (text : List Char) : Prop :=
  text = [] ∨ ∃ digits, IsDigits digits ∧ text = '.' :: digits

/-- The text is an exponent, or empty. -/
def IsExponent (text : List Char) : Prop :=
  text = [] ∨ ∃ c sign digits, (c = 'e' ∨ c = 'E') ∧ IsSign sign ∧ IsDigits digits ∧ digits ≠ [] ∧
    text = c :: (sign ++ digits)

/-- The parts are those of a written form. -/
structure WellFormed (number : LeadingNumber) : Prop where
  sign : IsSign number.sign
  whole : IsDigits number.whole
  fraction : IsFraction number.fraction
  exponent : IsExponent number.exponent
  hasDigit : number.whole = [] → number.fraction.tail ≠ []

theorem mem_optional_sign {text : List Char} : text ∈ optionalSign.matches' ↔ IsSign text := by
  unfold optionalSign IsSign
  rw [matches'_add, Language.mem_add, mem_any_of, matches'_epsilon, Language.mem_one]
  simp

theorem mem_fraction {text : List Char} :
    text ∈ (1 + char '.' * star digit).matches' ↔ IsFraction text := by
  rw [matches'_add, Language.mem_add, matches'_mul, Language.mem_mul]
  refine or_congr .rfl ⟨?_, ?_⟩
  · rintro ⟨_, rfl, digits, hdigits, rfl⟩
    exact ⟨digits, mem_star_digit.1 hdigits, rfl⟩
  · rintro ⟨digits, hdigits, rfl⟩
    exact ⟨['.'], rfl, digits, mem_star_digit.2 hdigits, rfl⟩

theorem mem_mantissa {text : List Char} :
    text ∈ mantissa.matches' ↔ ∃ whole fraction, IsDigits whole ∧ IsFraction fraction ∧
      (whole = [] → fraction.tail ≠ []) ∧ text = whole ++ fraction := by
  unfold mantissa
  rw [matches'_add, Language.mem_add, matches'_mul (digit * star digit), Language.mem_mul,
    matches'_mul (char '.'), Language.mem_mul]
  constructor
  · rintro (⟨whole, hwhole, fraction, hfraction, rfl⟩ | ⟨_, rfl, digits, hdigits, rfl⟩)
    · obtain ⟨hwhole, hne⟩ := mem_digits.1 hwhole
      exact ⟨whole, fraction, hwhole, mem_fraction.1 hfraction, fun h => absurd h hne, rfl⟩
    · obtain ⟨hdigits, hne⟩ := mem_digits.1 hdigits
      exact ⟨[], '.' :: digits, by simp [IsDigits], .inr ⟨digits, hdigits, rfl⟩, fun _ => hne, rfl⟩
  · rintro ⟨whole, fraction, hwhole, hfraction, hdigit, rfl⟩
    by_cases hne : whole = []
    · obtain rfl | ⟨digits, hdigits, rfl⟩ := hfraction
      · exact absurd rfl (hdigit hne)
      · exact .inr ⟨['.'], rfl, digits, mem_digits.2 ⟨hdigits, hdigit hne⟩, by rw [hne]; rfl⟩
    · exact .inl ⟨whole, mem_digits.2 ⟨hwhole, hne⟩, fraction, mem_fraction.2 hfraction, rfl⟩

theorem mem_exponent {text : List Char} :
    text ∈ (1 + anyOf ['e', 'E'] * (optionalSign * (digit * star digit))).matches' ↔
      IsExponent text := by
  rw [matches'_add, Language.mem_add, matches'_mul, Language.mem_mul]
  refine or_congr .rfl ⟨?_, ?_⟩
  · rintro ⟨_, hletter, _, hbehind, rfl⟩
    obtain ⟨c, hc, rfl⟩ := mem_any_of.1 hletter
    obtain ⟨sign, hsign, digits, hdigits, rfl⟩ := Language.mem_mul.1 hbehind
    obtain ⟨hdigits, hne⟩ := mem_digits.1 hdigits
    exact ⟨c, sign, digits, by simpa using hc, mem_optional_sign.1 hsign, hdigits, hne, rfl⟩
  · rintro ⟨c, sign, digits, hc, hsign, hdigits, hne, rfl⟩
    exact ⟨[c], mem_any_of.2 ⟨c, by simpa using hc, rfl⟩, sign ++ digits,
      Language.append_mem_mul (mem_optional_sign.2 hsign) (mem_digits.2 ⟨hdigits, hne⟩), rfl⟩

theorem mem_grammar {text : List Char} :
    text ∈ grammar.matches' ↔ ∃ number : LeadingNumber, number.WellFormed ∧ number.text = text := by
  unfold grammar
  rw [matches'_mul, matches'_mul, Language.mem_mul]
  constructor
  · rintro ⟨front, hfront, exponent, hexponent, rfl⟩
    obtain ⟨sign, hsign, digits, hdigits, rfl⟩ := Language.mem_mul.1 hfront
    obtain ⟨whole, fraction, hwhole, hfraction, hdigit, rfl⟩ := mem_mantissa.1 hdigits
    exact ⟨⟨sign, whole, fraction, exponent⟩, ⟨mem_optional_sign.1 hsign, hwhole, hfraction,
      mem_exponent.1 hexponent, hdigit⟩, by simp [text]⟩
  · rintro ⟨⟨sign, whole, fraction, exponent⟩, ⟨hsign, hwhole, hfraction, hexponent, hdigit⟩, rfl⟩
    refine ⟨sign ++ (whole ++ fraction), Language.append_mem_mul (mem_optional_sign.2 hsign) ?_,
      exponent, mem_exponent.2 hexponent, by simp [text]⟩
    exact mem_mantissa.2 ⟨whole, fraction, hwhole, hfraction, hdigit, rfl⟩

/-! ### Reading the parts -/

theorem split_sign_cons (c : Char) (rest : List Char) :
    splitSign (c :: rest) = if c = '+' ∨ c = '-' then ([c], rest) else ([], c :: rest) := by
  unfold splitSign
  split <;> simp_all

theorem split_sign_spec (text : List Char) :
    IsSign (splitSign text).1 ∧ (splitSign text).1 ++ (splitSign text).2 = text := by
  unfold splitSign IsSign
  split <;> simp

theorem split_sign_append {sign text : List Char} (hsign : IsSign sign)
    (htext : ∀ c ∈ text.head?, c ≠ '+' ∧ c ≠ '-') : splitSign (sign ++ text) = (sign, text) := by
  rcases hsign with rfl | rfl | rfl
  · cases text with
    | nil => rfl
    | cons c text => rw [List.nil_append, split_sign_cons, if_neg (not_or.2 (htext c rfl))]
  · rfl
  · rfl

theorem fraction_of_cons (c : Char) (rest : List Char) :
    fractionOf (c :: rest) = if c = '.' then c :: rest.takeWhile Char.isDigit else [] := by
  unfold fractionOf
  split <;> simp_all

theorem is_digits_take_while (text : List Char) : IsDigits (text.takeWhile Char.isDigit) :=
  List.all_eq_true.1 List.all_takeWhile

theorem fraction_of_spec (text : List Char) :
    IsFraction (fractionOf text) ∧ fractionOf text <+: text := by
  unfold fractionOf
  split
  next rest =>
    exact ⟨.inr ⟨_, is_digits_take_while rest, rfl⟩,
      List.cons_prefix_cons.2 ⟨rfl, List.takeWhile_prefix _⟩⟩
  next => exact ⟨.inl rfl, List.nil_prefix⟩

theorem exponent_of_spec (text : List Char) :
    IsExponent (exponentOf text) ∧ exponentOf text <+: text := by
  cases text with
  | nil => exact ⟨.inl rfl, List.nil_prefix⟩
  | cons c rest =>
      obtain ⟨hsign, hrest⟩ := split_sign_spec rest
      unfold exponentOf
      dsimp only
      split
      next h =>
        refine ⟨.inr ⟨c, _, _, h.1, hsign, is_digits_take_while _, h.2, rfl⟩, ?_⟩
        refine List.cons_prefix_cons.2 ⟨rfl, ?_⟩
        conv_rhs => rw [← hrest]
        exact List.prefix_append_right_inj _ |>.2 (List.takeWhile_prefix _)
      next => exact ⟨.inl rfl, List.nil_prefix⟩

/-! ### The longest start -/

/-- What is read is a start of the text in the written form. -/
theorem of_text?_spec {text : List Char} {number : LeadingNumber} (h : ofText? text = some number) :
    number.WellFormed ∧ number.text <+: text := by
  obtain ⟨hsign, htext⟩ := split_sign_spec text
  unfold ofText? at h
  dsimp only at h
  generalize (splitSign text).1 = sign at hsign htext h
  generalize (splitSign text).2 = rest at htext h
  split at h
  · cases h
  next hdigit =>
    cases h
    obtain ⟨hfraction, behind, hbehind⟩ := fraction_of_spec (rest.dropWhile Char.isDigit)
    generalize fractionOf (rest.dropWhile Char.isDigit) = fraction at *
    rw [← hbehind, List.drop_left]
    obtain ⟨hexponent, remaining, hremaining⟩ := exponent_of_spec behind
    refine ⟨⟨hsign, is_digits_take_while rest, hfraction, hexponent, ?_⟩, remaining, ?_⟩
    · simpa using hdigit
    · rw [LeadingNumber.text, List.append_assoc, hremaining, List.append_assoc, hbehind,
        List.append_assoc, List.takeWhile_append_dropWhile, htext]

/-- The reading of the parts one by one. -/
theorem of_text?_append {sign tail whole behind : List Char} (hsign : IsSign sign)
    (hhead : ∀ c ∈ tail.head?, c ≠ '+' ∧ c ≠ '-') (hwhole : tail.takeWhile Char.isDigit = whole)
    (hbehind : tail.dropWhile Char.isDigit = behind)
    (hdigit : whole = [] → (fractionOf behind).tail ≠ []) :
    ofText? (sign ++ tail) = some ⟨sign, whole, fractionOf behind,
      exponentOf (behind.drop (fractionOf behind).length)⟩ := by
  unfold ofText?
  rw [split_sign_append hsign hhead]
  dsimp only
  rw [hwhole, hbehind, if_neg]
  simpa using hdigit

theorem ne_sign_of_is_digit {c : Char} (h : c.isDigit = true) : c ≠ '+' ∧ c ≠ '-' := by
  constructor <;> rintro rfl <;> cases h

theorem exponent_of_append {exponent : List Char} (h : IsExponent exponent) (hne : exponent ≠ [])
    (rest : List Char) :
    exponentOf (exponent ++ rest) = exponent ++ rest.takeWhile Char.isDigit := by
  obtain rfl | ⟨c, sign, digits, hc, hsign, hdigits, hdigit, rfl⟩ := h
  · exact absurd rfl hne
  obtain ⟨d, digits, rfl⟩ := List.exists_cons_of_ne_nil hdigit
  have hd : d.isDigit = true := hdigits d List.mem_cons_self
  have hsplit : splitSign (sign ++ (d :: digits ++ rest)) = (sign, d :: digits ++ rest) := by
    refine split_sign_append hsign fun e he => ?_
    obtain rfl : d = e := Option.some.inj he
    exact ne_sign_of_is_digit hd
  unfold exponentOf
  simp only [List.cons_append, List.append_assoc] at hsplit ⊢
  rw [hsplit]
  dsimp only
  rw [← List.cons_append, List.takeWhile_append_of_pos hdigits, if_pos ⟨hc, by simp⟩]
  simp

section

variable {sign whole fraction exponent : List Char}

theorem WellFormed.head_ne_sign (h : WellFormed ⟨sign, whole, fraction, exponent⟩)
    (rest : List Char) : ∀ c ∈ (whole ++ (fraction ++ rest)).head?, c ≠ '+' ∧ c ≠ '-' := by
  cases whole with
  | cons d whole =>
      rintro c ⟨⟩
      exact ne_sign_of_is_digit (h.whole d List.mem_cons_self)
  | nil =>
      obtain rfl | ⟨digits, _, rfl⟩ : IsFraction fraction := h.fraction
      · exact absurd rfl (h.hasDigit rfl)
      · rintro c ⟨⟩
        decide

/-- The digits of a whole number may go on. -/
theorem WellFormed.of_text?_whole (h : WellFormed ⟨sign, whole, [], []⟩) (rest : List Char) :
    ∃ fraction exponent, ofText? (sign ++ (whole ++ rest)) =
      some ⟨sign, whole ++ rest.takeWhile Char.isDigit, fraction, exponent⟩ ∧
      (rest = [] → fraction = [] ∧ exponent = []) := by
  refine ⟨_, _, of_text?_append h.sign (h.head_ne_sign rest) (List.takeWhile_append_of_pos h.whole)
    (List.dropWhile_append_of_pos h.whole) fun hnil => ?_, ?_⟩
  · exact absurd rfl (h.hasDigit (List.append_eq_nil_iff.1 hnil).1)
  · rintro rfl
    exact ⟨rfl, rfl⟩

/-- The digits behind a point may go on. -/
theorem WellFormed.of_text?_fraction {digits : List Char}
    (h : WellFormed ⟨sign, whole, '.' :: digits, []⟩) (hdigits : IsDigits digits)
    (rest : List Char) :
    ∃ exponent, ofText? (sign ++ (whole ++ '.' :: digits ++ rest)) =
      some ⟨sign, whole, '.' :: (digits ++ rest.takeWhile Char.isDigit), exponent⟩ ∧
      (rest = [] → exponent = []) := by
  have hpoint : ∀ c ∈ ('.' :: (digits ++ rest)).head?, c.isDigit = false := by
    rintro c ⟨⟩
    rfl
  obtain ⟨htake, hdrop⟩ := MessageFormat.take_while_digits h.whole hpoint
  have hfraction : fractionOf ('.' :: (digits ++ rest)) =
      '.' :: (digits ++ rest.takeWhile Char.isDigit) := by
    rw [fractionOf, List.takeWhile_append_of_pos hdigits]
  have hread := of_text?_append h.sign (h.head_ne_sign rest) htake hdrop fun hnil hnone => by
    rw [hfraction] at hnone
    exact h.hasDigit hnil (List.append_eq_nil_iff.1 hnone).1
  rw [hfraction] at hread
  refine ⟨_, by simpa using hread, ?_⟩
  rintro rfl
  simp [exponentOf]

/-- The digits of an exponent may go on. -/
theorem WellFormed.of_text?_exponent (h : WellFormed ⟨sign, whole, fraction, exponent⟩)
    (hne : exponent ≠ []) (rest : List Char) :
    ofText? (sign ++ (whole ++ (fraction ++ (exponent ++ rest)))) =
      some ⟨sign, whole, fraction, exponent ++ rest.takeWhile Char.isDigit⟩ := by
  have hletter : ∀ c ∈ (exponent ++ rest).head?, c.isDigit = false ∧ c ≠ '.' := by
    obtain rfl | ⟨c, _, _, hc, _, _, _, rfl⟩ := h.exponent
    · exact absurd rfl hne
    · rintro d ⟨⟩
      rcases hc with rfl | rfl <;> decide
  have hfraction : fractionOf (fraction ++ (exponent ++ rest)) = fraction ∧
      ∀ c ∈ (fraction ++ (exponent ++ rest)).head?, c.isDigit = false := by
    obtain rfl | ⟨digits, hdigits, rfl⟩ := h.fraction
    · refine ⟨?_, fun c hc => (hletter c hc).1⟩
      unfold fractionOf
      split
      next heq => exact absurd rfl (hletter '.' (by rw [List.nil_append] at heq; rw [heq]; rfl)).2
      next => rfl
    · refine ⟨?_, by rintro c ⟨⟩; rfl⟩
      rw [List.cons_append, fractionOf,
        (MessageFormat.take_while_digits hdigits fun c hc => (hletter c hc).1).1]
  obtain ⟨htake, hdrop⟩ := MessageFormat.take_while_digits h.whole hfraction.2
  rw [of_text?_append h.sign (h.head_ne_sign _) htake hdrop (hfraction.1.symm ▸ h.hasDigit),
    hfraction.1, List.drop_left, exponent_of_append h.exponent hne]

end

/-- A written form at the start of a text is no longer than what is read, and on its own it is what
is read. -/
theorem WellFormed.exists_of_text? {number : LeadingNumber} (h : number.WellFormed)
    (rest : List Char) :
    ∃ found, ofText? (number.text ++ rest) = some found ∧
      number.text.length ≤ found.text.length ∧ (rest = [] → found = number) := by
  obtain ⟨sign, whole, fraction, exponent⟩ := number
  simp only [text, List.append_assoc]
  by_cases hexponent : exponent = []
  · subst hexponent
    obtain rfl | ⟨digits, hdigits, rfl⟩ : IsFraction fraction := h.fraction
    · obtain ⟨fraction, exponent, hread, hnil⟩ := h.of_text?_whole rest
      refine ⟨_, hread, by simp, ?_⟩
      rintro rfl
      simp [hnil rfl]
    · obtain ⟨exponent, hread, hnil⟩ := h.of_text?_fraction hdigits rest
      refine ⟨_, by simpa using hread, by simp, ?_⟩
      rintro rfl
      simp [hnil rfl]
  · refine ⟨_, h.of_text?_exponent hexponent rest, by simp, ?_⟩
    rintro rfl
    simp

end LeadingNumber

/-! ### Offsets into the bytes -/

namespace Bytes

/-- One of the characters stands at an offset. -/
def standsAt (cs : List Char) (bytes : List UInt8) (offset : Nat) : Bool :=
  cs.any fun c => bytes[offset]? == some (UInt8.ofNat c.toNat)

/-- The offset behind a sign that may stand at an offset. -/
def signEnd (bytes : List UInt8) (offset : Nat) : Nat :=
  if standsAt ['+', '-'] bytes offset then offset + 1 else offset

/-- The byte of a digit. -/
def isDigit (byte : UInt8) : Bool :=
  0x30 ≤ byte && byte ≤ 0x39

/-- The offset behind the digits that stand at an offset, which has to be inside of the bytes or at
their end. -/
def digitsEnd? (bytes : List UInt8) (offset : Nat) : Option Nat :=
  if offset ≤ bytes.length then
    some (offset + ((bytes.drop offset).takeWhile isDigit).length)
  else none

/-- The offset behind a point and its digits, which may stand at an offset. -/
def fractionEnd? (bytes : List UInt8) (offset : Nat) : Option Nat :=
  if standsAt ['.'] bytes offset then digitsEnd? bytes (offset + 1) else some offset

/-- The offset behind an exponent that may stand at an offset. -/
def exponentEnd? (bytes : List UInt8) (offset : Nat) : Option Nat :=
  if standsAt ['e', 'E'] bytes offset then
    let digits := signEnd bytes (offset + 1)
    (digitsEnd? bytes digits).map fun last => if digits < last then last else offset
  else some offset

/-- The offset behind the number at the start of the bytes, if there is one. There is no outcome if
an offset is outside of the bytes. -/
def numberEnd? (bytes : List UInt8) : Option (Option Nat) := do
  let first := signEnd bytes 0
  let point ← digitsEnd? bytes first
  let last ← fractionEnd? bytes point
  if point = first ∧ last ≤ point + 1 then pure none
  else (exponentEnd? bytes last).map some

/-- The bytes of some characters. -/
def ofChars (cs : List Char) : List UInt8 :=
  cs.flatMap String.utf8EncodeChar

/-- The characters have one byte each. -/
def IsAscii (cs : List Char) : Prop :=
  ∀ c ∈ cs, c.toNat < 128

theorem IsAscii.append {cs ds : List Char} (h : IsAscii cs) (h' : IsAscii ds) :
    IsAscii (cs ++ ds) :=
  List.forall_mem_append.2 ⟨h, h'⟩

theorem is_ascii_singleton {c : Char} (h : c.toNat < 128) : IsAscii [c] :=
  List.forall_mem_singleton.2 h

theorem is_ascii_of_is_sign {cs : List Char} (h : LeadingNumber.IsSign cs) : IsAscii cs := by
  rcases h with rfl | rfl | rfl <;> simp [IsAscii]

theorem is_ascii_of_is_digits {cs : List Char} (h : LeadingNumber.IsDigits cs) : IsAscii cs :=
  fun c hc => Nat.lt_trans (LeadingNumber.is_digit_iff_to_nat.1 (h c hc)).2 (by decide)

theorem is_ascii_of_is_fraction {cs : List Char} (h : LeadingNumber.IsFraction cs) :
    IsAscii cs := by
  obtain rfl | ⟨digits, hdigits, rfl⟩ := h
  · simp [IsAscii]
  · exact (is_ascii_singleton (by decide)).append (is_ascii_of_is_digits hdigits)

theorem utf8_encode_char_of_lt {c : Char} (h : c.toNat < 128) :
    String.utf8EncodeChar c = [UInt8.ofNat c.toNat] := by
  unfold String.utf8EncodeChar
  exact if_pos (Nat.le_of_lt_succ h)

/-- The first byte of any other character is none of these. -/
theorem exists_utf8_encode_char {c : Char} (h : ¬ c.toNat < 128) :
    ∃ byte bytes, String.utf8EncodeChar c = byte :: bytes ∧ 128 ≤ byte.toNat := by
  have hval : ¬ c.val.toNat ≤ 127 := fun hle => h (Nat.lt_succ_of_le hle)
  unfold String.utf8EncodeChar
  dsimp only
  rw [if_neg hval]
  split
  · exact ⟨_, _, rfl, by rw [UInt8.toNat_ofNat']; omega⟩
  · split
    · exact ⟨_, _, rfl, by rw [UInt8.toNat_ofNat']; omega⟩
    · exact ⟨_, _, rfl, by rw [UInt8.toNat_ofNat']; omega⟩

theorem length_of_chars {cs : List Char} (h : IsAscii cs) : (ofChars cs).length = cs.length := by
  induction cs with
  | nil => rfl
  | cons c cs ih =>
      obtain ⟨hc, hcs⟩ := List.forall_mem_cons.1 h
      rw [ofChars, List.flatMap_cons, utf8_encode_char_of_lt hc]
      exact congrArg (· + 1) (ih hcs)

/-- The first byte tells whether the text starts with a character of one byte. -/
theorem head?_of_chars {c : Char} (hc : c.toNat < 128) (rest : List Char) :
    (ofChars rest).head? = some (UInt8.ofNat c.toNat) ↔ rest.head? = some c := by
  cases rest with
  | nil => simp [ofChars]
  | cons d rest =>
      rw [ofChars, List.flatMap_cons]
      by_cases hd : d.toNat < 128
      · rw [utf8_encode_char_of_lt hd]
        simp only [List.singleton_append, List.head?_cons, Option.some.injEq, ← UInt8.toNat_inj,
          UInt8.toNat_ofNat', ← Char.toNat_inj]
        omega
      · obtain ⟨byte, bytes, hbyte, hle⟩ := exists_utf8_encode_char hd
        simp only [hbyte, List.cons_append, List.head?_cons, Option.some.injEq, ← UInt8.toNat_inj,
          UInt8.toNat_ofNat', ← Char.toNat_inj]
        omega

theorem is_digit_iff_to_nat {byte : UInt8} :
    isDigit byte = true ↔ 48 ≤ byte.toNat ∧ byte.toNat < 58 := by
  simp [isDigit, UInt8.le_iff_toNat_le, Nat.lt_succ_iff]

theorem length_take_while_of_chars (rest : List Char) :
    ((ofChars rest).takeWhile isDigit).length = (rest.takeWhile Char.isDigit).length := by
  induction rest with
  | nil => rfl
  | cons c rest ih =>
      rw [ofChars, List.flatMap_cons]
      have hdigit := @LeadingNumber.is_digit_iff_to_nat c
      by_cases hc : c.toNat < 128
      · have hbyte : isDigit (UInt8.ofNat c.toNat) = c.isDigit := by
          rw [Bool.eq_iff_iff, hdigit, is_digit_iff_to_nat, UInt8.toNat_ofNat']
          omega
        rw [utf8_encode_char_of_lt hc, List.singleton_append, List.takeWhile_cons,
          List.takeWhile_cons,
          hbyte]
        split
        · exact congrArg (· + 1) ih
        · rfl
      · obtain ⟨byte, bytes, hbytes, hle⟩ := exists_utf8_encode_char hc
        have hno : ¬ c.isDigit = true := by rw [hdigit]; omega
        have hbyte : ¬ isDigit byte = true := by rw [is_digit_iff_to_nat]; omega
        rw [hbytes, List.cons_append, List.takeWhile_cons_of_neg hbyte,
          List.takeWhile_cons_of_neg hno]
        rfl

section

variable {front : List Char} (h : IsAscii front) (rest : List Char)

include h

theorem drop_of_chars : (ofChars (front ++ rest)).drop front.length = ofChars rest := by
  rw [ofChars, List.flatMap_append]
  exact List.drop_left' (length_of_chars h)

theorem stands_at_of_chars {cs : List Char} (hcs : IsAscii cs) :
    standsAt cs (ofChars (front ++ rest)) front.length = cs.any (rest.head? == some ·) := by
  have hbyte : (ofChars (front ++ rest))[front.length]? = (ofChars rest).head? := by
    rw [← drop_of_chars h rest, List.head?_drop]
  unfold standsAt
  rw [hbyte, Bool.eq_iff_iff, List.any_eq_true, List.any_eq_true]
  simp only [beq_iff_eq]
  exact exists_congr fun c => and_congr_right fun hc => head?_of_chars (hcs c hc) rest

theorem sign_end_of_chars :
    signEnd (ofChars (front ++ rest)) front.length =
      (front ++ (LeadingNumber.splitSign rest).1).length := by
  unfold signEnd
  rw [stands_at_of_chars h rest (by simp [IsAscii])]
  cases rest with
  | nil => simp [LeadingNumber.splitSign]
  | cons c rest =>
      rw [LeadingNumber.split_sign_cons]
      by_cases hc : c = '+' ∨ c = '-' <;> simp [hc]

theorem digits_end?_of_chars :
    digitsEnd? (ofChars (front ++ rest)) front.length =
      some (front ++ rest.takeWhile Char.isDigit).length := by
  have hle : front.length ≤ (ofChars (front ++ rest)).length := by
    rw [ofChars, List.flatMap_append, List.length_append]
    exact Nat.le_add_right_of_le (Nat.le_of_eq (length_of_chars h).symm)
  unfold digitsEnd?
  rw [if_pos hle, drop_of_chars h, length_take_while_of_chars, List.length_append]

theorem fraction_end?_of_chars :
    fractionEnd? (ofChars (front ++ rest)) front.length =
      some (front ++ LeadingNumber.fractionOf rest).length := by
  unfold fractionEnd?
  rw [stands_at_of_chars h rest (by simp [IsAscii])]
  cases rest with
  | nil => simp [LeadingNumber.fractionOf]
  | cons c rest =>
      rw [LeadingNumber.fraction_of_cons]
      by_cases hc : c = '.'
      · subst hc
        have hpoint : IsAscii (front ++ ['.']) := h.append (is_ascii_singleton (by decide))
        simpa using digits_end?_of_chars hpoint rest
      · simp [hc]

theorem exponent_end?_of_chars :
    exponentEnd? (ofChars (front ++ rest)) front.length =
      some (front ++ LeadingNumber.exponentOf rest).length := by
  unfold exponentEnd?
  rw [stands_at_of_chars h rest (by simp [IsAscii])]
  cases rest with
  | nil => simp [LeadingNumber.exponentOf]
  | cons c rest =>
      by_cases hc : c = 'e' ∨ c = 'E'
      · have hletter : IsAscii (front ++ [c]) :=
          h.append (is_ascii_singleton (by rcases hc with rfl | rfl <;> decide))
        obtain ⟨hsign, hrest⟩ := LeadingNumber.split_sign_spec rest
        have hfirst := sign_end_of_chars hletter rest
        have hlast := digits_end?_of_chars (hletter.append (is_ascii_of_is_sign hsign))
          (LeadingNumber.splitSign rest).2
        rw [List.append_assoc, hrest] at hlast
        simp only [List.append_assoc, List.singleton_append, List.length_append,
          List.length_singleton] at hfirst hlast
        rw [if_pos (by simpa using hc), hfirst]
        dsimp only
        rw [hlast]
        unfold LeadingNumber.exponentOf
        dsimp only
        cases (LeadingNumber.splitSign rest).2.takeWhile Char.isDigit with
        | nil => simp
        | cons d digits => simp [hc, Nat.add_right_comm]
      · simp [LeadingNumber.exponentOf, hc]

end

/-- The end of the number is found without an offset outside of the bytes. -/
theorem number_end?_of_chars (text : List Char) :
    numberEnd? (ofChars text) = some ((LeadingNumber.ofText? text).map (·.text.length)) := by
  obtain ⟨hsign, hrest⟩ := LeadingNumber.split_sign_spec text
  have hfirst := sign_end_of_chars (List.forall_mem_nil _) text
  unfold LeadingNumber.ofText? numberEnd?
  dsimp only
  generalize (LeadingNumber.splitSign text).1 = sign at *
  generalize (LeadingNumber.splitSign text).2 = rest at *
  have hascii := is_ascii_of_is_sign hsign
  have hpoint := digits_end?_of_chars hascii rest
  have hwhole := hascii.append (is_ascii_of_is_digits (LeadingNumber.is_digits_take_while rest))
  have hsplit : rest.takeWhile Char.isDigit ++ rest.dropWhile Char.isDigit = rest :=
    List.takeWhile_append_dropWhile
  generalize rest.takeWhile Char.isDigit = whole at *
  generalize rest.dropWhile Char.isDigit = behind at *
  have hlast := fraction_end?_of_chars hwhole behind
  obtain ⟨hfraction, tail, htail⟩ := LeadingNumber.fraction_of_spec behind
  generalize LeadingNumber.fractionOf behind = fraction at *
  have hend := exponent_end?_of_chars (hwhole.append (is_ascii_of_is_fraction hfraction)) tail
  subst htail hsplit hrest
  simp only [List.nil_append, List.length_nil, List.append_assoc] at hfirst hpoint hlast hend
  simp only [hfirst, hpoint, hlast, hend, Option.bind_eq_bind, Option.bind_some, List.drop_left,
    Option.map_some]
  have hnone : ((sign ++ whole).length = sign.length ∧
      (sign ++ (whole ++ fraction)).length ≤ (sign ++ whole).length + 1) ↔
        (whole.isEmpty && fraction.tail.isEmpty) = true := by
    cases whole <;> cases fraction <;> simp
  simp only [hnone, LeadingNumber.text]
  split <;> simp

end Bytes

/-! ### The value of a word -/

/-- Of the starts of a text that are in a language it is the longest. -/
structure IsLongestStart (language : Language Char) (text start : List Char) : Prop where
  isPrefix : start <+: text
  mem : start ∈ language
  length_le : ∀ other, other <+: text → other ∈ language → other.length ≤ start.length

namespace LeadingNumber

theorem exists_of_text?_of_mem {text start : List Char} (hstart : start <+: text)
    (h : start ∈ grammar.matches') :
    ∃ found, ofText? text = some found ∧ start.length ≤ found.text.length := by
  obtain ⟨rest, rfl⟩ := hstart
  obtain ⟨number, hnumber, rfl⟩ := mem_grammar.1 h
  obtain ⟨found, hfound, hle, -⟩ := hnumber.exists_of_text? rest
  exact ⟨found, hfound, hle⟩

theorem is_longest_start_of_of_text? {text : List Char} {number : LeadingNumber}
    (h : ofText? text = some number) : IsLongestStart grammar.matches' text number.text := by
  obtain ⟨hnumber, hstart⟩ := of_text?_spec h
  refine ⟨hstart, mem_grammar.2 ⟨number, hnumber, rfl⟩, fun other hother hmem => ?_⟩
  obtain ⟨found, hfound, hle⟩ := exists_of_text?_of_mem hother hmem
  obtain rfl := Option.some.inj (h.symm.trans hfound)
  exact hle

theorem of_text?_eq_none_iff {text : List Char} :
    ofText? text = none ↔ ∀ start, start <+: text → start ∉ grammar.matches' := by
  constructor
  · intro hnone start hstart hmem
    obtain ⟨found, hfound, -⟩ := exists_of_text?_of_mem hstart hmem
    cases hnone.symm.trans hfound
  · intro hno
    cases h : ofText? text with
    | none => rfl
    | some number =>
        have hlongest := is_longest_start_of_of_text? h
        exact absurd hlongest.mem (hno _ hlongest.isPrefix)

theorem WellFormed.is_ascii {number : LeadingNumber} (h : number.WellFormed) :
    Bytes.IsAscii number.text := by
  have hexponent : Bytes.IsAscii number.exponent := by
    obtain hnil | ⟨c, sign, digits, hc, hsign, hdigits, -, hexponent⟩ := h.exponent
    · simp [Bytes.IsAscii, hnil]
    · rw [hexponent]
      exact (Bytes.is_ascii_singleton (by rcases hc with rfl | rfl <;> decide)).append
        ((Bytes.is_ascii_of_is_sign hsign).append (Bytes.is_ascii_of_is_digits hdigits))
  exact (((Bytes.is_ascii_of_is_sign h.sign).append (Bytes.is_ascii_of_is_digits h.whole)).append
    (Bytes.is_ascii_of_is_fraction h.fraction)).append hexponent

end LeadingNumber

open LeadingNumber in
/-- A word has the value of its longest start that is a number, and zero exactly if no start is
one. The end of the number can be found by offsets that stay inside of the bytes, and the bytes up
to it are those of the number. -/
theorem leading_value_longest (word : String) :
    Bytes.numberEnd? (Text.encodeUtf8 word) =
        some ((ofText? word.toList).map (·.text.length)) ∧
      (∀ number, ofText? word.toList = some number →
        IsLongestStart grammar.matches' word.toList number.text ∧
        (Text.encodeUtf8 word).take number.text.length =
          Text.encodeUtf8 (String.ofList number.text) ∧
        ofText? number.text = some number ∧ leadingValue word = number.value) ∧
      (ofText? word.toList = none ↔ ∀ start, start <+: word.toList → start ∉ grammar.matches') ∧
      (ofText? word.toList = none → leadingValue word = ⟨0⟩) := by
  refine ⟨Bytes.number_end?_of_chars word.toList, fun number h => ?_, of_text?_eq_none_iff, ?_⟩
  · obtain ⟨hnumber, rest, hrest⟩ := of_text?_spec h
    obtain ⟨found, hfound, -, heq⟩ := hnumber.exists_of_text? []
    refine ⟨is_longest_start_of_of_text? h, ?_, ?_, by rw [leadingValue, h]⟩
    · rw [Text.encodeUtf8, Text.encodeUtf8, String.toList_ofList, ← hrest, List.flatMap_append]
      exact List.take_left' (Bytes.length_of_chars hnumber.is_ascii)
    · rw [List.append_nil, heq rfl] at hfound
      exact hfound
  · intro hnone
    rw [leadingValue, hnone]

end QuestScript
