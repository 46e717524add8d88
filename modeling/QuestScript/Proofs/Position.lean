import Mathlib.Data.List.Basic
import QuestScript.Proofs.Lexemes
import QuestScript.Proofs.Registry
import QuestScript.Statement

/-!
# The spelling of `PositionCell`

Instructions that are spelled `PositionCell` are read with errors that count as warnings. Whether
an instruction is spelled so is asked of the place where its keyword stands, and not of the
keyword: the two differ in a quoted text that is not closed.

The main statement is `Scanner.unread_of_is_position`. If the host has no instruction of this name,
a keyword that is spelled so is the last of the text.
-/

namespace QuestScript

/-- No instruction of the host is called `PositionCell`. -/
def Registry.LacksPosition (registry : Registry) : Prop :=
  ∀ code, registry.codeOf? "positioncell" = some code → registry.instruction? code = none

/-- The token is an instruction of the host that is spelled `PositionCell`. -/
def Token.IsPosition (registry : Registry) (token : Token) (location : Location) : Prop :=
  ∃ code, token = .keyword (.extension code) ∧ (registry.instruction? code).isSome = true ∧
    Statement.isPositionCell location = true

/-! ### Spellings in lower case -/

theorem Text.to_nat_lt_of_to_lower {c : Char} (h : c.toLower.toNat < 128) : c.toNat < 128 := by
  change (if h : c.val ≥ 'A'.val ∧ c.val ≤ 'Z'.val then _ else c : Char).toNat < 128 at h
  split at h
  next hcapital =>
    have hle : c.toNat ≤ 90 := UInt32.le_iff_toNat_le.1 hcapital.2
    omega
  next => exact h

/-- Texts of the first 128 characters have their lower case letter by letter. -/
theorem Text.lower_from_eq_map {cs : List Char} (h : ∀ c ∈ cs, c.toNat < 128) (before : List Char) :
    Text.lowerFrom before cs = cs.map Char.toLower := by
  induction cs generalizing before with
  | nil => rfl
  | cons c cs ih =>
      have hc : c.toNat < 128 := h c (by simp)
      have hsigma : c ≠ 'Σ' := by
        rintro rfl
        exact absurd hc (by decide)
      have hdot : c ≠ 'İ' := by
        rintro rfl
        exact absurd hc (by decide)
      rw [Text.lowerFrom, if_neg hsigma, if_neg hdot, Text.lowerChar, if_pos hc,
        ih (fun d hd => h d (by simp [hd]))]
      rfl

theorem Text.to_lower_eq_of_map {s : String} (h : s.map Char.toLower = "positioncell") :
    Text.toLower s = "positioncell" := by
  have hmap : s.toList.map Char.toLower = "positioncell".toList := by
    rw [← String.toList_map, h]
  have hletters : ∀ c ∈ s.toList, c.toNat < 128 := by
    intro c hc
    have hmem : c.toLower ∈ "positioncell".toList := hmap ▸ List.mem_map_of_mem hc
    have hall : ∀ d ∈ "positioncell".toList, d.toNat < 128 := by simp
    exact Text.to_nat_lt_of_to_lower (hall _ hmem)
  rw [Text.toLower, Text.lower_from_eq_map hletters, hmap]
  rfl

/-! ### Keywords of the host -/

/-- No word that is `positioncell` in lower case is an instruction. -/
theorem Registry.LacksPosition.not_instruction {registry : Registry} {word : String} {code : Int}
    (hlacks : registry.LacksPosition) (hword : Text.toLower word = "positioncell")
    (hkeyword : registry.keyword? (Text.toLower word) = some (.extension code)) :
    (registry.instruction? code).isSome = false := by
  have hbuiltin : Builtin.ofSpelling? "positioncell" = none := by decide
  rw [hword, keyword?, hbuiltin] at hkeyword
  rw [hlacks code (by simpa using hkeyword)]
  rfl

/-! ### Quoted texts -/

namespace Lexeme

/-- The lexeme is a quoted text. -/
def IsQuoted : Lexeme → Prop
  | .quoted _ _ => True
  | _ => False

theorem not_is_quoted_ite {p : Prop} [Decidable p] {x y : Lexeme × List Char}
    (hx : ¬x.1.IsQuoted) (hy : ¬y.1.IsQuoted) : ¬(if p then x else y).1.IsQuoted := by
  split
  · exact hx
  · exact hy

theorem not_is_quoted_read_fraction (whole rest : List Char) :
    ¬(readFraction whole rest).1.IsQuoted := by
  unfold readFraction
  exact not_is_quoted_ite id id

theorem not_is_quoted_read_number (tolerant : Bool) (first : Char) (rest : List Char) :
    ¬(readNumber tolerant first rest).1.IsQuoted := by
  unfold readNumber
  dsimp only
  split
  · exact id
  · split
    · exact not_is_quoted_read_fraction _ _
    · exact id

theorem not_is_quoted_read_special (modes : Modes) (c : Char) (rest : List Char) :
    ¬(readSpecial modes c rest).1.IsQuoted := by
  have hcomparison : ¬(readComparison c rest).1.IsQuoted := by
    unfold readComparison
    dsimp only
    split <;> exact id
  exact read_special_cases (P := fun found => ¬found.1.IsQuoted) modes c rest (fun _ => id) id
    (fun _ _ => id) (fun _ => id) (not_is_quoted_read_fraction [] rest) (fun _ => id) hcomparison id

/-- A quoted text starts with a quote. -/
theorem read_eq_read_quoted {modes : Modes} {c : Char} {rest : List Char}
    (h : (read modes c rest).1.IsQuoted) :
    c = '"' ∧ read modes c rest = readQuoted modes.ignoreNewline rest := by
  unfold read at h ⊢
  split at h
  · cases h
  · cases h
  next =>
    split at h
    next hquote => exact ⟨hquote, by rw [if_pos hquote]⟩
    next => cases h
  next =>
    split at h
    · cases h
    · exact absurd h (not_is_quoted_read_number _ _ _)
  next => exact absurd h (not_is_quoted_read_special _ _ _)

/-- A quoted text that is closed has no quote inside, and one that is not goes on to the end. -/
theorem read_quoted_eq_quoted {ignoreNewline closed : Bool} {rest body tail : List Char}
    (h : readQuoted ignoreNewline rest = (.quoted body closed, tail)) :
    if closed then tail = body ++ ['"'] ∧ '"' ∉ body else tail = rest := by
  unfold readQuoted at h
  dsimp only at h
  split at h
  next hrest =>
    cases h
    refine ⟨rfl, fun hmem => ?_⟩
    exact absurd (List.all_eq_true.1 List.all_takeWhile _ hmem) (by simp)
  next =>
    split at h <;> cases h
  next hquote hnewline =>
    cases h
    have hall := List.takeWhile_append_dropWhile
      (p := fun c => c != '"' && (ignoreNewline || c != '\n')) (l := rest)
    have hhead := List.head?_dropWhile_not
      (fun c => c != '"' && (ignoreNewline || c != '\n')) rest
    -- What stands behind the text can only start with a quote or a line end.
    generalize rest.dropWhile _ = behind at hall hhead hquote hnewline
    cases behind with
    | nil => simpa using hall
    | cons c behind =>
        simp only [List.head?_cons, Bool.and_eq_false_iff, Bool.or_eq_false_iff,
          bne_eq_false_iff_eq] at hhead
        obtain rfl | ⟨-, rfl⟩ := hhead
        · exact absurd rfl (hquote behind)
        · exact absurd rfl (hnewline behind)

/-- What a quoted text is, in front of its first character. -/
theorem read_eq_quoted {modes : Modes} {c : Char} {rest body tail : List Char} {closed : Bool}
    (hread : read modes c rest = (.quoted body closed, tail)) :
    c = '"' ∧ if closed then tail = body ++ ['"'] ∧ '"' ∉ body else tail = rest := by
  have hlexeme : (read modes c rest).1.IsQuoted := by
    rw [hread]
    trivial
  obtain ⟨hc, hquoted⟩ := read_eq_read_quoted hlexeme
  exact ⟨hc, read_quoted_eq_quoted (hquoted.symm.trans hread)⟩

/-- Words are not quoted. -/
theorem ne_quote_of_read {modes : Modes} {c : Char} {rest tail : List Char} {lexeme : Lexeme}
    (hread : read modes c rest = (lexeme, tail))
    (hlexeme : lexeme = .word ∨ lexeme = .signedWord) : c ≠ '"' := by
  rintro rfl
  have hquoted : read modes '"' rest = readQuoted modes.ignoreNewline rest := by
    simp [read, Start.of]
  rw [hquoted, readQuoted] at hread
  split at hread
  · cases hread
    simp at hlexeme
  · split at hread <;> cases hread <;> simp at hlexeme
  · cases hread
    simp at hlexeme

end Lexeme

/-- The last line of a closed quoted text is the whole text, or it still ends with a quote. -/
theorem unquote_last_line {body : List Char} (hbody : '"' ∉ body) :
    unquote (String.ofList (Scanner.lastLine ('"' :: (body ++ ['"'])))) = String.ofList body ∨
      ∃ front, unquote (String.ofList (Scanner.lastLine ('"' :: (body ++ ['"'])))) =
        String.ofList (front ++ ['"']) := by
  have hreverse : ('"' :: (body ++ ['"'])).reverse = '"' :: (body.reverse ++ ['"']) := by simp
  rw [Scanner.lastLine, hreverse, List.takeWhile_cons_of_pos (by decide), List.reverse_cons]
  by_cases hlength : (body.reverse.takeWhile (· != '\n')).length = body.reverse.length
  · left
    rw [List.takeWhile_append, if_pos hlength, List.takeWhile_cons_of_pos (by decide),
      List.takeWhile_nil, List.reverse_append, List.reverse_reverse]
    exact unquote_closed body
  · right
    rw [List.takeWhile_append, if_neg hlength]
    have hfront : '"' ∉ (body.reverse.takeWhile (· != '\n')).reverse := by
      intro hmem
      exact hbody (List.mem_reverse.1 ((List.takeWhile_sublist _).subset (List.mem_reverse.1 hmem)))
    refine ⟨(body.reverse.takeWhile (· != '\n')).reverse, ?_⟩
    generalize (body.reverse.takeWhile (· != '\n')).reverse = front at hfront
    cases front with
    | nil => rfl
    | cons c front => exact unquote_of_head (fun h => hfront (by simp [h])) _

namespace Scanner

theorem literal_location (s : Scanner) (text : List Char) :
    (s.location text).literal = String.ofList text := rfl

/-- A word that is delivered as an instruction of the host spelled `PositionCell`. -/
theorem item_deliver_word_is_position {s : Scanner} {registry : Registry} {name : String}
    {location place : Location} {tolerantAfter after : Option Bool} {reports : List Report}
    {token : Token}
    (hitem : (s.deliverWord registry name location tolerantAfter reports).item =
      .token token place after) (hposition : token.IsPosition registry place)
    (hlacks : registry.LacksPosition) :
    Text.toLower name ≠ "positioncell" ∧
      (unquote location.literal).map Char.toLower = "positioncell" := by
  obtain ⟨code, rfl, hinstruction, hspelling⟩ := hposition
  unfold deliverWord at hitem
  split at hitem
  · cases hitem
  next keyword hkeyword =>
    cases hitem
    refine ⟨fun hword => ?_, eq_of_beq hspelling⟩
    rw [hlacks.not_instruction hword hkeyword] at hinstruction
    cases hinstruction

/-- Only in a quoted text that is not closed can the keyword and its spelling differ. -/
theorem quoted_of_is_position {s : Scanner} {registry : Registry} {line : Nat} {modes : Modes}
    {c : Char} {rest tail : List Char} {lexeme : Lexeme} {token : Token} {place : Location}
    {after : Option Bool} (hread : Lexeme.read modes c rest = (lexeme, tail))
    (hitem : (s.settle registry line (c :: tail) lexeme).item = .token token place after)
    (hposition : token.IsPosition registry place) (hlacks : registry.LacksPosition) :
    ∃ body, lexeme = .quoted body false := by
  -- A word is spelled like its keyword, and so is a closed text, but for the quotes.
  cases lexeme with
  | word =>
      obtain ⟨hname, hspelling⟩ := item_deliver_word_is_position hitem hposition hlacks
      have hc : c ≠ '"' := Lexeme.ne_quote_of_read hread (.inl rfl)
      rw [literal_location, unquote_of_head hc] at hspelling
      exact absurd (Text.to_lower_eq_of_map hspelling) hname
  | signedWord =>
      obtain ⟨hname, hspelling⟩ := item_deliver_word_is_position hitem hposition hlacks
      have hc : c ≠ '"' := Lexeme.ne_quote_of_read hread (.inr rfl)
      rw [literal_location, unquote_of_head hc] at hspelling
      exact absurd (Text.to_lower_eq_of_map hspelling) hname
  | quoted body closed =>
      cases closed with
      | false => exact ⟨body, rfl⟩
      | true =>
          obtain ⟨rfl, rfl, hbody⟩ := Lexeme.read_eq_quoted hread
          unfold settle at hitem
          dsimp only at hitem
          split at hitem
          · obtain ⟨code, rfl, -⟩ := hposition
            cases hitem
          · obtain ⟨hname, hspelling⟩ := item_deliver_word_is_position hitem hposition hlacks
            rw [literal_location] at hspelling
            obtain h | ⟨front, h⟩ := unquote_last_line hbody
            · rw [h] at hspelling
              exact absurd (Text.to_lower_eq_of_map hspelling) hname
            · rw [h] at hspelling
              have hlast := congrArg (fun text => text.toList.getLast?) hspelling
              simp [String.toList_map] at hlast
  | sign special =>
      obtain ⟨code, rfl, -⟩ := hposition
      cases special <;> cases hitem
  | blank | comment | strayQuote | openQuote | integer | decimal | brokenDecimal | strays
  | comparison | unknown =>
      obtain ⟨code, rfl, -⟩ := hposition
      cases hitem

/-- Behind a keyword that is spelled `PositionCell` there is nothing left to read. -/
theorem unread_of_is_position {s : Scanner} {registry : Registry} {token : Token}
    {location : Location} {after : Option Bool} (hpending : s.pending = none)
    (hitem : (s.pull registry).item = .token token location after)
    (hposition : token.IsPosition registry location) (hlacks : registry.LacksPosition) :
    (s.pull registry).scanner.unread = 0 := by
  unfold pull at hitem ⊢
  simp only [hpending] at hitem ⊢
  cases hrest : s.rest with
  | nil =>
      rw [hrest] at hitem
      cases hitem
  | cons c rest =>
      simp only [hrest] at hitem ⊢
      rcases hread : Lexeme.read s.modes c rest with ⟨lexeme, tail⟩
      rw [hread] at hitem
      obtain ⟨body, rfl⟩ := quoted_of_is_position hread hitem hposition hlacks
      obtain ⟨-, htail⟩ := Lexeme.read_eq_quoted hread
      replace htail : tail = rest := htail
      simp only [unread_settle]
      simp [pass, mapModes, unread, hpending, hrest, htail]

end Scanner

end QuestScript
