import Mathlib.Data.List.Forall2
import QuestScript.Proofs.Coupling.Texts
import QuestScript.Scanner.Lexeme

/-!
# Spellings

A spelling says which characters may stand for each other in a script. Characters that differ are
letters from `a` to `z` in either case, so that no class of characters that the scanner knows tells
them apart. Texts that are alike character by character have the same lower case
(`Spelling.Spells.to_lower_eq`), and stand for each other wherever a name is looked up
(`Spelling.likeness`).
-/

namespace QuestScript

/-! ### Letters -/

namespace Text

variable {c : Char}

/-- The code of a letter from `a` to `z` in either case. -/
theorem is_alpha_iff : c.isAlpha = true ↔
    65 ≤ c.toNat ∧ c.toNat ≤ 90 ∨ 97 ≤ c.toNat ∧ c.toNat ≤ 122 := by
  unfold Char.isAlpha Char.isUpper Char.isLower
  simp only [Bool.or_eq_true, Bool.and_eq_true, decide_eq_true_eq, ge_iff_le,
    UInt32.le_iff_toNat_le]
  exact Iff.rfl

theorem ne_of_is_alpha {d : Char} (h : c.isAlpha = true) (hd : d.isAlpha = false) : c ≠ d := by
  rintro rfl
  cases hd.symm.trans h

theorem is_alphabetic_of_is_alpha (h : c.isAlpha = true) : isAlphabetic c = true := by
  have hascii : c.toNat < 128 := by
    have := is_alpha_iff.1 h
    omega
  rw [isAlphabetic, if_pos hascii, h]

theorem is_digit_of_is_alpha (h : c.isAlpha = true) : c.isDigit = false := by
  have hcode := is_alpha_iff.1 h
  rw [← Bool.not_eq_true]
  intro hdigit
  simp only [Char.isDigit, Bool.and_eq_true, decide_eq_true_eq, ge_iff_le,
    UInt32.le_iff_toNat_le] at hdigit
  have hle : c.toNat ≤ 57 := hdigit.2
  omega

end Text

namespace Lexeme

theorem is_name_char_of_is_alpha {c : Char} (h : c.isAlpha = true) : isNameChar c = true := by
  simp [isNameChar, Text.is_alphabetic_of_is_alpha h]

theorem ends_strays_of_is_alpha {c : Char} (h : c.isAlpha = true) : endsStrays c = true := by
  simp [endsStrays, Text.isAlphanumeric, Text.is_alphabetic_of_is_alpha h]

end Lexeme

theorem Start.of_is_alpha {c : Char} (h : c.isAlpha = true) : Start.of c = .word := by
  have hblank : ¬(c = ' ' ∨ c = '\t' ∨ c = ':' ∨ c = '\r') := by
    simp [Text.ne_of_is_alpha h]
  unfold Start.of
  rw [if_neg (Text.ne_of_is_alpha h rfl), if_neg hblank,
    if_pos (Or.inl (Text.is_alphabetic_of_is_alpha h))]

/-! ### Identifiers -/

/-- The character may stand in an identifier behind its first one. -/
def Text.isIdentifierChar (c : Char) : Bool :=
  c.isAlphanum || c == '_'

/-- The text is a letter or an underscore with letters, digits and underscores behind it. -/
def Text.isIdentifier (word : String) : Bool :=
  match word.toList with
  | [] => false
  | c :: rest => (c.isAlpha || c == '_') && rest.all isIdentifierChar

theorem Lexeme.is_name_char_of_is_identifier_char {c : Char} (h : Text.isIdentifierChar c = true) :
    isNameChar c = true := by
  unfold Text.isIdentifierChar Char.isAlphanum at h
  rw [Bool.or_eq_true, Bool.or_eq_true, beq_iff_eq] at h
  rcases h with (halpha | hdigit) | rfl
  · exact is_name_char_of_is_alpha halpha
  · simp [isNameChar, hdigit]
  · rfl

/-- How an identifier is read: its first character starts a word and the others continue it. -/
theorem Text.exists_cons_of_is_identifier {word : String} (h : isIdentifier word = true) :
    ∃ c rest, word.toList = c :: rest ∧ Start.of c = .word ∧ c ≠ '"' ∧
      ∀ x ∈ rest, Lexeme.isNameChar x = true := by
  unfold isIdentifier at h
  split at h
  · cases h
  next c rest hword =>
    rw [Bool.and_eq_true, Bool.or_eq_true, beq_iff_eq] at h
    obtain ⟨hc, hrest⟩ := h
    refine ⟨c, rest, hword, ?_, ?_, fun x hx =>
      Lexeme.is_name_char_of_is_identifier_char (List.all_eq_true.1 hrest x hx)⟩
    · rcases hc with halpha | rfl
      · exact Start.of_is_alpha halpha
      · rfl
    · rintro rfl
      rcases hc with halpha | h
      · cases halpha
      · cases h

/-! ### Spellings -/

namespace Text

theorem to_nat_to_lower (c : Char) :
    c.toLower.toNat = if 65 ≤ c.toNat ∧ c.toNat ≤ 90 then c.toNat + 32 else c.toNat := by
  have hiff : (c.val ≥ 'A'.val ∧ c.val ≤ 'Z'.val) ↔ (65 ≤ c.toNat ∧ c.toNat ≤ 90) := by
    simp only [ge_iff_le, UInt32.le_iff_toNat_le]
    exact Iff.rfl
  unfold Char.toLower
  by_cases h : 65 ≤ c.toNat ∧ c.toNat ≤ 90
  · rw [dif_pos (hiff.2 h), if_pos h]
    show (c.val + ('a'.val - 'A'.val)).toNat = c.val.toNat + 32
    have hle : c.val.toNat ≤ 90 := h.2
    rw [UInt32.toNat_add]
    simp
    omega
  · rw [dif_neg (mt hiff.1 h), if_neg h]

/-- Only letters share a small letter with another character. -/
theorem eq_or_is_alpha_of_to_lower_eq {a b : Char} (h : b.toLower = a.toLower) :
    b = a ∨ a.isAlpha = true ∧ b.isAlpha = true := by
  have hcode := congrArg Char.toNat h
  rw [to_nat_to_lower, to_nat_to_lower] at hcode
  by_cases hsame : b.toNat = a.toNat
  · exact Or.inl (Char.toNat_inj.1 hsame)
  · right
    rw [is_alpha_iff, is_alpha_iff]
    split_ifs at hcode <;> omega

end Text

/-- Which characters may stand for each other: letters from `a` to `z` in either case at most. -/
structure Spelling where
  alike : Char → Char → Prop
  refl : ∀ c, alike c c
  toLower_eq : ∀ {a b}, alike a b → b.toLower = a.toLower

namespace Spelling

/-- Every character stands for itself only. -/
def same : Spelling where
  alike a b := b = a
  refl _ := rfl
  toLower_eq h := congrArg Char.toLower h

/-- The case of letters does not matter. -/
def anyCase : Spelling where
  alike a b := b.toLower = a.toLower
  refl _ := rfl
  toLower_eq := id

variable (sp : Spelling) {a b : Char} {text text' : List Char} {p : Char → Bool}

theorem eq_or_is_alpha (h : sp.alike a b) : b = a ∨ a.isAlpha = true ∧ b.isAlpha = true :=
  Text.eq_or_is_alpha_of_to_lower_eq (sp.toLower_eq h)

/-- A property of characters that does not tell letters apart does not tell characters apart that
are alike. -/
theorem class_eq {value : Bool} (hp : ∀ c, c.isAlpha = true → p c = value) (h : sp.alike a b) :
    p b = p a := by
  obtain rfl | ⟨ha, hb⟩ := sp.eq_or_is_alpha h
  · rfl
  · rw [hp a ha, hp b hb]

/-- A character that is alike to a sign is that sign. -/
theorem eq_of_sign (h : sp.alike a b) (ha : a.isAlpha = false) : b = a := by
  obtain rfl | ⟨ha', -⟩ := sp.eq_or_is_alpha h
  · rfl
  · cases ha.symm.trans ha'

/-- What is no letter is the same in texts that are alike. -/
theorem filter_eq (hp : ∀ c, c.isAlpha = true → p c = false)
    (h : List.Forall₂ sp.alike text text') : text'.filter p = text.filter p := by
  induction h with
  | nil => rfl
  | @cons a b text text' hab _ ih =>
      rw [List.filter_cons, List.filter_cons, sp.class_eq hp hab, ih]
      split
      next ha =>
        obtain rfl | ⟨hletter, -⟩ := sp.eq_or_is_alpha hab
        · rfl
        · cases (hp a hletter).symm.trans ha
      · rfl

theorem all_eq {value : Bool} (hp : ∀ c, c.isAlpha = true → p c = value)
    (h : List.Forall₂ sp.alike text text') : text'.all p = text.all p := by
  induction h with
  | nil => rfl
  | cons hab _ ih => rw [List.all_cons, List.all_cons, sp.class_eq hp hab, ih]

theorem forall₂_refl (text : List Char) : List.Forall₂ sp.alike text text :=
  List.forall₂_same.2 fun c _ => sp.refl c

/-- A sign does not come in by another spelling. -/
theorem not_mem_of_sign {c : Char} (hc : c.isAlpha = false) (h : List.Forall₂ sp.alike text text')
    (hnot : c ∉ text) : c ∉ text' := by
  have hfilter : text'.filter (· == c) = text.filter (· == c) :=
    sp.filter_eq (fun a ha => beq_eq_false_iff_ne.2 (Text.ne_of_is_alpha ha hc)) h
  intro hmem
  have hboth : c ∈ text.filter (· == c) := by
    rw [← hfilter]
    exact List.mem_filter.2 ⟨hmem, beq_self_eq_true c⟩
  exact hnot (List.mem_filter.1 hboth).1

end Spelling

/-! ### Lower case -/

namespace Text

/-- A letter counts for case. -/
theorem letters_cased : ∀ n < 123, 65 ≤ n ∧ n ≤ 90 ∨ 97 ≤ n →
    inRuns caseIgnorableRuns n = false ∧ inRuns casedRuns n = true := by
  decide +kernel

variable {sp : Spelling} {text text' : List Char}

theorem is_cased_of_is_alpha {c : Char} (h : c.isAlpha = true) :
    inRuns caseIgnorableRuns c.toNat = false ∧ inRuns casedRuns c.toNat = true := by
  have hcode := is_alpha_iff.1 h
  exact letters_cased c.toNat (by omega) (by omega)

theorem meets_cased_eq (h : List.Forall₂ sp.alike text text') :
    meetsCased text' = meetsCased text := by
  unfold meetsCased
  induction h with
  | nil => rfl
  | @cons a b text text' hab _ ih =>
      have hignorable : inRuns caseIgnorableRuns b.toNat =
          inRuns caseIgnorableRuns a.toNat :=
        sp.class_eq (p := fun c => inRuns caseIgnorableRuns c.toNat)
          (fun _ h => (is_cased_of_is_alpha h).1) hab
      have hcased : inRuns casedRuns b.toNat = inRuns casedRuns a.toNat :=
        sp.class_eq (p := fun c => inRuns casedRuns c.toNat)
          (fun _ h => (is_cased_of_is_alpha h).2) hab
      rw [List.dropWhile_cons, List.dropWhile_cons, hignorable]
      by_cases h : inRuns caseIgnorableRuns a.toNat = true
      · rw [if_pos h, if_pos h]
        exact ih
      · rw [if_neg h, if_neg h]
        exact hcased

theorem lower_char_eq {a b : Char} (h : sp.alike a b) : lowerChar b = lowerChar a := by
  obtain rfl | ⟨ha, hb⟩ := sp.eq_or_is_alpha h
  · rfl
  · have hascii : ∀ c : Char, c.isAlpha = true → lowerChar c = c.toLower := by
      intro c hc
      have hcode := is_alpha_iff.1 hc
      rw [lowerChar, if_pos (by omega)]
    rw [hascii a ha, hascii b hb, sp.toLower_eq h]

/-- Around a capital sigma the same characters count for case. -/
theorem lower_from_eq {before before' : List Char} (hbefore : List.Forall₂ sp.alike before before')
    (h : List.Forall₂ sp.alike text text') : lowerFrom before' text' = lowerFrom before text := by
  induction h generalizing before before' with
  | nil => rfl
  | @cons a b text text' hab htext ih =>
      rw [lowerFrom, lowerFrom, ih (.cons hab hbefore), meets_cased_eq hbefore,
        meets_cased_eq htext,
        lower_char_eq hab]
      obtain rfl | ⟨ha, hb⟩ := sp.eq_or_is_alpha hab
      · rfl
      · have hsigma : ∀ c : Char, c.isAlpha = true → c ≠ 'Σ' ∧ c ≠ 'İ' := fun c hc =>
          ⟨ne_of_is_alpha hc (by decide), ne_of_is_alpha hc (by decide)⟩
        rw [if_neg (hsigma a ha).1, if_neg (hsigma b hb).1, if_neg (hsigma a ha).2,
          if_neg (hsigma b hb).2]

end Text

/-! ### Texts that stand for each other -/

namespace Spelling

variable (sp : Spelling) {a b : String}

/-- Texts that are alike character by character. -/
def Spells (a b : String) : Prop :=
  List.Forall₂ sp.alike a.toList b.toList

variable {sp}

theorem Spells.refl (sp : Spelling) (a : String) : sp.Spells a a :=
  sp.forall₂_refl _

theorem Spells.append {c d : String} (h : sp.Spells a b) (h' : sp.Spells c d) :
    sp.Spells (a ++ c) (b ++ d) := by
  unfold Spells
  rw [String.toList_append, String.toList_append]
  exact List.rel_append h h'

theorem Spells.to_lower_eq (h : sp.Spells a b) : Text.toLower b = Text.toLower a := by
  unfold Text.toLower
  rw [Text.lower_from_eq .nil h]

theorem Spells.map_to_lower_eq (h : sp.Spells a b) : b.map Char.toLower = a.map Char.toLower := by
  have hmap : ∀ {text text' : List Char}, List.Forall₂ sp.alike text text' →
      text'.map Char.toLower = text.map Char.toLower := by
    intro text text' htext
    induction htext with
    | nil => rfl
    | cons hab _ ih => rw [List.map_cons, List.map_cons, ih, sp.toLower_eq hab]
  rw [← String.toList_inj, String.toList_map, String.toList_map, hmap h]

theorem Spells.eq (h : Spelling.same.Spells a b) : b = a := by
  have hsame : a.toList = b.toList :=
    List.forall₂_eq_eq_eq ▸ List.Forall₂.imp (fun _ _ => Eq.symm) h
  exact (String.toList_inj.1 hsame).symm

theorem signature_of_not_mem (h : '%' ∉ a.toList) : MessageFormat.signature a = "" := by
  have hnone : ∀ text : List Char, '%' ∉ text → MessageFormat.placeholdersOf text = [] := by
    intro text htext
    induction text with
    | nil => rw [MessageFormat.placeholdersOf]
    | cons c text ih =>
        have hc : c ≠ '%' := fun hc => htext (hc ▸ List.mem_cons_self)
        rw [MessageFormat.placeholdersOf.eq_4 _ _ (fun _ h => absurd h hc) hc,
          ih fun hmem => htext (List.mem_cons_of_mem c hmem)]
  rw [MessageFormat.signature, MessageFormat.placeholders, hnone _ h]
  rfl

theorem unquote_of_not_mem (h : '"' ∉ a.toList) : unquote a = a := by
  unfold unquote
  split
  next heq =>
    rw [heq] at h
    exact absurd List.mem_cons_self h
  · rfl

/-- Texts without quotes and placeholders stand for each other if they are alike. -/
def likeness (sp : Spelling) : Likeness where
  rel a b := b = a ∨ sp.Spells a b ∧ '"' ∉ a.toList ∧ '%' ∉ a.toList
  refl _ := Or.inl rfl
  toLower_eq := by
    rintro a b (rfl | ⟨h, -⟩)
    · rfl
    · exact h.to_lower_eq
  map_toLower_eq := by
    rintro a b (rfl | ⟨h, -⟩)
    · rfl
    · exact h.map_to_lower_eq
  unquote := by
    rintro a b (rfl | ⟨h, hquote, hpercent⟩)
    · exact Or.inl rfl
    · rw [unquote_of_not_mem hquote, unquote_of_not_mem (sp.not_mem_of_sign rfl h hquote)]
      exact Or.inr ⟨h, hquote, hpercent⟩
  signature_eq := by
    rintro a b (rfl | ⟨h, -, hpercent⟩)
    · rfl
    · rw [signature_of_not_mem hpercent, signature_of_not_mem (sp.not_mem_of_sign rfl h hpercent)]

theorem spells_of_rel (h : sp.likeness.rel a b) : sp.Spells a b := by
  obtain rfl | ⟨h, -⟩ := h
  · exact .refl sp b
  · exact h

end Spelling

end QuestScript
