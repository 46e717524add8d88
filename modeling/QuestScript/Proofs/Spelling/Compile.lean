import QuestScript.Proofs.Coupling.Body
import QuestScript.Proofs.Lines
import QuestScript.Proofs.Spelling.Lexemes

/-!
# Compiling texts that are spelled alike

Scripts without quotes can be respelled in two ways that make no difference to the compiler. Letters
may change their case, and there may be a carriage return in front of a line end. The scanner reads
one character past most lexemes, so that it comes upon a line end and upon a carriage return at
different moments; but it falls back on neither before the lexeme is settled. The carriage return
itself is a blank that the other text does not have, or the last character of a comment.

The main statements are `compile_up_to_case` and `compile_with_returns`.
-/

namespace QuestScript

open Coupling

/-! ### Logs -/

namespace Spelling

variable {sp : Spelling}

/-- The same place, with texts that are alike. -/
structure Places (sp : Spelling) (l l' : Location) : Prop where
  line : l'.line = l.line
  column : l'.column = l.column
  literal : sp.Spells l.literal l'.literal

/-- The same diagnostic, with texts that are alike. -/
structure Diagnostics (sp : Spelling) (d d' : Diagnostic) : Prop where
  severity : d'.severity = d.severity
  message : sp.Spells d.message d'.message
  location : Option.Rel sp.Places d.location d'.location
  label : d'.label = d.label

/-- The same log, with texts that are alike. -/
structure Logs (sp : Spelling) (log log' : Log) : Prop where
  warnings : log'.warnings = log.warnings
  errors : log'.errors = log.errors
  mode : log'.mode = log.mode
  downgrade : log'.downgrade = log.downgrade
  label : log'.label = log.label
  entries : List.Forall₂ sp.Diagnostics log.entries log'.entries

/-- Warnings of the scanner about the same place. -/
inductive Reports (sp : Spelling) : Report → Report → Prop where
  | warning {problem problem' : Problem} {l l' : Location}
      (hmessage : sp.Spells problem.message problem'.message) (hplace : sp.Places l l') :
      Reports sp (.warning problem l) (.warning problem' l')

theorem Places.refl (sp : Spelling) (l : Location) : sp.Places l l :=
  ⟨rfl, rfl, .refl sp _⟩

theorem Diagnostics.refl (sp : Spelling) (d : Diagnostic) : sp.Diagnostics d d := by
  refine ⟨rfl, .refl sp _, ?_, rfl⟩
  cases d.location with
  | none => exact .none
  | some l => exact .some (.refl sp l)

/-- The wording of a problem is alike if the names in it are. -/
theorem spells_message {problem problem' : Problem} (h : problem.Alike sp.likeness problem') :
    sp.Spells problem.message problem'.message := by
  cases h with
  | same problem => exact .refl sp _
  | extraAfterScriptName h =>
      exact ((Spells.refl sp "Stray string (").append (spells_of_rel h)).append (.refl sp _)
  | scriptNamesDiffer h =>
      exact ((Spells.refl sp "Names for script ").append (spells_of_rel h)).append (.refl sp _)

namespace Logs

variable {log log' : Log} {message message' : String} {l l' : Location}

theorem refl (sp : Spelling) (log : Log) : sp.Logs log log :=
  ⟨rfl, rfl, rfl, rfl, rfl, List.forall₂_same.2 fun d _ => .refl sp d⟩

theorem record (h : sp.Logs log log') (severity : Severity)
    (hmessage : sp.Spells message message') {place place' : Option Location}
    (hplace : Option.Rel sp.Places place place') :
    sp.Logs (log.record severity message place) (log'.record severity message' place') where
  warnings := by
    show log'.warnings + _ = log.warnings + _
    rw [h.warnings]
  errors := by
    show log'.errors + _ = log.errors + _
    rw [h.errors]
  mode := h.mode
  downgrade := h.downgrade
  label := h.label
  entries := List.rel_append h.entries (.cons ⟨rfl, hmessage, hplace, h.label⟩ .nil)

theorem warning (h : sp.Logs log log') (hmessage : sp.Spells message message')
    (hplace : sp.Places l l') : sp.Logs (log.warning message l) (log'.warning message' l') := by
  unfold Log.warning
  rw [h.mode, h.downgrade]
  split
  · exact h
  · exact h.record _ hmessage (.some hplace)
  · exact h.record _ hmessage (.some hplace)

theorem error (h : sp.Logs log log') (hmessage : sp.Spells message message')
    (hplace : sp.Places l l') : sp.Logs (log.error message l) (log'.error message' l') := by
  unfold Log.error
  rw [h.downgrade]
  split
  · exact h.warning hmessage hplace
  · exact h.record _ hmessage (.some hplace)

theorem end_of_file (h : sp.Logs log log') : sp.Logs log.endOfFile log'.endOfFile :=
  h.record _ (.refl sp _) .none

theorem foldl_enter (h : sp.Logs log log') {reports reports' : List Report}
    (hreports : List.Forall₂ sp.Reports reports reports') :
    sp.Logs (reports.foldl Log.enter log) (reports'.foldl Log.enter log') := by
  induction hreports generalizing log log' with
  | nil => exact h
  | cons hreport _ ih =>
      cases hreport with
      | warning hmessage hplace => exact ih (h.warning hmessage hplace)

theorem tolerating (h : sp.Logs log log') (setting : Bool) :
    sp.Logs { log with downgrade := setting } { log' with downgrade := setting } :=
  ⟨h.warnings, h.errors, h.mode, rfl, h.label, h.entries⟩

end Logs

/-! ### Scanners -/

/-- Texts without quotes that are alike character by character, except that the second may have a
carriage return in front of a line end. -/
inductive Texts (sp : Spelling) : List Char → List Char → Prop where
  | nil : Texts sp [] []
  | newline {rest rest' : List Char} (h : Texts sp rest rest') :
      Texts sp ('\n' :: rest) ('\n' :: rest')
  | returned {rest rest' : List Char} (h : Texts sp rest rest') :
      Texts sp ('\n' :: rest) ('\r' :: '\n' :: rest')
  | char {a b : Char} {rest rest' : List Char} (hab : sp.alike a b) (hline : a ≠ '\n')
      (hquote : a ≠ '"') (h : Texts sp rest rest') : Texts sp (a :: rest) (b :: rest')

namespace Texts

variable {rest rest' : List Char}

theorem beside (h : sp.Texts rest rest') : sp.Beside rest rest' := by
  have hend : ∀ c rest, c = '\n' ∨ c = '\r' → AtLineEnd (c :: rest) := by
    rintro c rest hc _ ⟨⟩
    exact hc
  induction h with
  | nil => exact .stop (by rintro _ ⟨⟩) (by rintro _ ⟨⟩)
  | newline _ _ => exact .stop (hend _ _ (Or.inl rfl)) (hend _ _ (Or.inl rfl))
  | returned _ _ => exact .stop (hend _ _ (Or.inl rfl)) (hend _ _ (Or.inr rfl))
  | char hab _ _ _ ih => exact .cons hab ih

/-- Behind a part of a line the texts are alike as before. -/
theorem drop (h : sp.Texts rest rest') {n : Nat} (hline : '\n' ∉ rest.take n) :
    sp.Texts (rest.drop n) (rest'.drop n) := by
  induction n generalizing rest rest' with
  | zero => exact h
  | succ n ih =>
      cases h with
      | nil => exact .nil
      | newline h => exact absurd List.mem_cons_self hline
      | returned h => exact absurd List.mem_cons_self hline
      | char _ _ _ h => exact ih h fun hmem => hline (List.mem_cons_of_mem _ hmem)

/-- Behind a comment the texts are alike. The comment may have a carriage return at its end if
there is a line end behind it. -/
theorem comment (h : sp.Texts rest rest') :
    sp.Texts (rest.dropWhile (· != '\n')) (rest'.dropWhile (· != '\n')) ∧
      ((rest'.takeWhile (· != '\n')).length = (rest.takeWhile (· != '\n')).length ∨
        (rest.dropWhile (· != '\n')).head? = some '\n') := by
  induction h with
  | nil => exact ⟨.nil, Or.inl rfl⟩
  | newline h _ => exact ⟨.newline h, Or.inl rfl⟩
  | returned h _ => exact ⟨.newline h, Or.inr rfl⟩
  | @char a b rest rest' hab hline hquote h ih =>
      have hline' : b ≠ '\n' := by
        rintro rfl
        obtain rfl | ⟨-, hletter⟩ := sp.eq_or_is_alpha hab
        · exact hline rfl
        · cases hletter
      have ha : (a != '\n') = true := by simpa using hline
      have hb : (b != '\n') = true := by simpa using hline'
      simp only [List.dropWhile_cons, List.takeWhile_cons, ha, hb, if_true, List.length_cons]
      exact ⟨ih.1, ih.2.imp (congrArg (· + 1)) id⟩

theorem append_newline (h : sp.Texts rest rest') : sp.Texts (rest ++ ['\n']) (rest' ++ ['\n']) := by
  induction h with
  | nil => exact .newline .nil
  | newline _ ih => exact .newline ih
  | returned _ ih => exact .returned ih
  | char hab hline hquote _ ih => exact .char hab hline hquote ih

end Texts

/-- The same place, with texts that stand for each other. -/
def Stands (sp : Spelling) (l l' : Location) : Prop :=
  sp.Places l l' ∧ sp.likeness.rel l.literal l'.literal

/-- Scanners that have read as much of texts that are alike. The second may have read a carriage
return more in front of a line end. -/
structure Scanners (sp : Spelling) (s t : Scanner) : Prop where
  rest : sp.Texts s.rest t.rest
  line : t.line = s.line
  column : t.column = s.column ∨ s.rest.head? = some '\n'
  pending : Option.Rel (fun a b => a.1.Alike sp.likeness b.1 ∧ sp.Stands a.2 b.2)
    s.pending t.pending
  modes : t.modes = s.modes
  lineStart : t.lineStart = s.lineStart

/-- What two scanners bring. -/
inductive Brings (sp : Spelling) : Pulled → Pulled → Prop where
  | blank {s t : Scanner} {reports reports' : List Report} (h : sp.Scanners s t)
      (hreports : List.Forall₂ sp.Reports reports reports') :
      Brings sp ⟨.blank, s, reports⟩ ⟨.blank, t, reports'⟩
  | token {s t : Scanner} {token token' : Token} {l l' : Location} {tolerantAfter : Option Bool}
      {reports reports' : List Report} (htoken : token.Alike sp.likeness token')
      (hplace : sp.Stands l l') (h : sp.Scanners s t)
      (hreports : List.Forall₂ sp.Reports reports reports') :
      Brings sp ⟨.token token l tolerantAfter, s, reports⟩
        ⟨.token token' l' tolerantAfter, t, reports'⟩
  | comment {s t : Scanner} {text text' : String} {l l' : Location} (h : sp.Scanners s t) :
      Brings sp ⟨.token (.comment text) l none, s, []⟩ ⟨.token (.comment text') l' none, t, []⟩
  | malformed {s t : Scanner} {l l' : Location} (hplace : sp.Places l l')
      (h : sp.Scanners s t) : Brings sp ⟨.malformed l, s, []⟩ ⟨.malformed l', t, []⟩
  | ended {s t : Scanner} (h : sp.Scanners s t) : Brings sp ⟨.ended, s, []⟩ ⟨.ended, t, []⟩

namespace Scanners

variable {s t : Scanner} {registry : Registry} {token token' : Token} {l l' : Location}
  {text text' : List Char}

theorem map_modes (h : sp.Scanners s t) (change : Modes → Modes) :
    sp.Scanners (s.mapModes change) (t.mapModes change) :=
  ⟨h.rest, h.line, h.column, h.pending, congrArg change h.modes, h.lineStart⟩

theorem deliver (h : sp.Scanners s t) (htoken : token.Alike sp.likeness token')
    (hplace : sp.Stands l l') (tolerantAfter : Option Bool) {reports reports' : List Report}
    (hreports : List.Forall₂ sp.Reports reports reports') :
    sp.Brings (s.deliver token l tolerantAfter reports)
      (t.deliver token' l' tolerantAfter reports') := by
  refine .token htoken hplace ⟨h.rest, h.line, h.column, h.pending, h.modes, ?_⟩ hreports
  exact decide_eq_decide.2 (htoken.special_iff .newline).symm

theorem deliver_word (h : sp.Scanners s t) (registry : Registry) {name name' : String}
    (hname : sp.likeness.rel name name') (hplace : sp.Stands l l')
    (tolerantAfter : Option Bool) :
    sp.Brings (s.deliverWord registry name l tolerantAfter)
      (t.deliverWord registry name' l' tolerantAfter) := by
  unfold Scanner.deliverWord
  rw [sp.likeness.toLower_eq hname]
  split
  · exact h.deliver (.name hname) hplace _ .nil
  · dsimp only
    split
    · exact (h.map_modes _).deliver (.keyword _) hplace _ .nil
    · exact h.deliver (.keyword _) hplace _ .nil

theorem is_inner_blank_of_is_alpha (c : Char) (h : c.isAlpha = true) :
    Lexeme.isInnerBlank c = false := by
  simp [Lexeme.isInnerBlank, Text.ne_of_is_alpha h]

theorem trim_end (h : List.Forall₂ sp.alike text text') :
    List.Forall₂ sp.alike (Scanner.trimEnd text) (Scanner.trimEnd text') := by
  have hdrop : ∀ {text text' : List Char}, List.Forall₂ sp.alike text text' →
      List.Forall₂ sp.alike (text.dropWhile Lexeme.isInnerBlank)
        (text'.dropWhile Lexeme.isInnerBlank) := by
    intro text text' h
    induction h with
    | nil => exact .nil
    | cons hab h ih =>
        rw [List.dropWhile_cons, List.dropWhile_cons, sp.class_eq is_inner_blank_of_is_alpha hab]
        split
        · exact ih
        · exact .cons hab h
  exact List.rel_reverse (hdrop (List.rel_reverse h))

theorem mem_of_mem_trim_end {c : Char} (h : c ∈ Scanner.trimEnd text) : c ∈ text :=
  List.mem_reverse.1 ((List.dropWhile_sublist _).subset (List.mem_reverse.1 h))

/-- What a lexeme brings in two texts that are alike. -/
theorem settle (h : sp.Scanners s t) (hcolumn : t.column = s.column) (line line' : Nat)
    (htext : List.Forall₂ sp.alike text text') (hquote : '"' ∉ text)
    (hcomment : text.head? ≠ some ';') {lexeme : Lexeme} (hlexeme : lexeme.Consists text) :
    sp.Brings (s.settle registry line text lexeme) (t.settle registry line' text' lexeme) := by
  have hspells : ∀ {text text' : List Char}, List.Forall₂ sp.alike text text' →
      sp.Spells (String.ofList text) (String.ofList text') := by
    intro text text' htext
    rwa [Spells, String.toList_ofList, String.toList_ofList]
  have hplaces : ∀ {text text' : List Char}, List.Forall₂ sp.alike text text' →
      sp.Places (s.location text) (t.location text') :=
    fun htext => ⟨h.line, hcolumn, hspells htext⟩
  have hrel : '%' ∉ text → ∀ {part part' : List Char}, List.Forall₂ sp.alike part part' →
      part ⊆ text → sp.likeness.rel (String.ofList part) (String.ofList part') := by
    intro hpercent part part' hpart hsubset
    refine Or.inr ⟨hspells hpart, ?_, ?_⟩
    · rw [String.toList_ofList]
      exact fun hmem => hquote (hsubset hmem)
    · rw [String.toList_ofList]
      exact fun hmem => hpercent (hsubset hmem)
  have hstands : '%' ∉ text → sp.Stands (s.location text) (t.location text') := fun hpercent =>
    ⟨hplaces htext, hrel hpercent htext (List.Subset.refl _)⟩
  -- Lexemes that are delivered consist of characters that let two spellings be alike: there is no
  -- percent sign in them and no quote.
  cases lexeme with
  | blank => exact .blank h .nil
  | comment => exact absurd hlexeme hcomment
  | quoted body closed => exact absurd (List.mem_of_mem_head? hlexeme) hquote
  | strayQuote => exact absurd (List.mem_of_mem_head? hlexeme) hquote
  | openQuote => exact absurd (List.mem_of_mem_head? hlexeme) hquote
  | word =>
      exact h.deliver_word registry (hrel hlexeme htext (List.Subset.refl _)) (hstands hlexeme) none
  | signedWord =>
      unfold Scanner.settle
      dsimp only
      rw [h.modes]
      exact (h.map_modes _).deliver_word registry (hrel hlexeme htext (List.Subset.refl _))
        (hstands hlexeme) _
  | integer =>
      have hdigits : text' = text := by
        have hfilter := sp.filter_eq (fun _ => Text.is_digit_of_is_alpha) htext
        have hall := sp.all_eq (fun _ => Text.is_digit_of_is_alpha) htext
        rw [List.filter_eq_self.2 hlexeme] at hfilter
        rwa [List.all_eq_true.2 hlexeme, List.all_eq_true, ← List.filter_eq_self, hfilter,
          eq_comm] at hall
      have hpercent : '%' ∉ text := fun hmem => by cases hlexeme '%' hmem
      subst hdigits
      exact h.deliver (.int _) (hstands hpercent) none .nil
  | decimal whole fraction => exact h.deliver (.float _) (hstands hlexeme) none .nil
  | brokenDecimal => exact .malformed (hplaces htext) h
  | strays => exact .blank h (.cons (.warning (.refl sp _) (hplaces htext)) .nil)
  | sign special =>
      cases special with
      | newline =>
          have hplace : sp.Stands ⟨s.line, s.column, "<newline>"⟩ ⟨t.line, t.column, "<newline>"⟩ :=
            ⟨⟨h.line, hcolumn, .refl sp _⟩, Or.inl rfl⟩
          exact (h.map_modes _).deliver (.special _) hplace none .nil
      | _ => exact h.deliver (.special _) (hstands hlexeme) none .nil
  | comparison kind proper =>
      have htrim : sp.Places (s.location (Scanner.trimEnd text))
          (t.location (Scanner.trimEnd text')) := hplaces (trim_end htext)
      refine h.deliver (.special _) ⟨htrim, hrel hlexeme (trim_end htext) fun _ =>
        mem_of_mem_trim_end⟩ none ?_
      cases proper with
      | true => exact .nil
      | false =>
          have hwritten : sp.Spells (String.ofList (text.filter (!Lexeme.isInnerBlank ·)))
              (String.ofList (text'.filter (!Lexeme.isInnerBlank ·))) := by
            refine hspells (List.rel_filter (fun a b hab => ?_) htext)
            show (!Lexeme.isInnerBlank a) = true ↔ (!Lexeme.isInnerBlank b) = true
            rw [sp.class_eq is_inner_blank_of_is_alpha hab]
          refine .cons (.warning ?_ htrim) .nil
          exact (((Spells.refl sp "Invalid operator ").append hwritten).append
            (.refl sp _)).append (.refl sp _)
  | unknown => exact .malformed (hplaces (trim_end htext)) h

section Pull

variable {a b : Char} {rest rest' : List Char} (h : sp.Scanners s t) (hs : s.pending = none)
  (ht : t.pending = none) (hleft : s.rest = a :: rest) (hright : t.rest = b :: rest')
  (hcolumn : t.column = s.column) (hrest : sp.Texts rest rest') (hab : sp.alike a b)

include h hs ht hleft hright hcolumn hrest hab

/-- A comment is read up to the line end, and takes a carriage return in. -/
theorem comment (ha : a = ';') : sp.Brings (s.pull registry) (t.pull registry) := by
  subst ha
  obtain rfl := sp.eq_of_sign hab rfl
  have hpull : ∀ {u : Scanner} {text : List Char}, u.pending = none → u.rest = ';' :: text →
      u.pull registry = ⟨.token (.comment (String.ofList (text.takeWhile (· != '\n'))))
        ⟨u.line, u.column + ((text.takeWhile (· != '\n')).length + 1),
          String.ofList (';' :: text.takeWhile (· != '\n'))⟩ none,
        { u with
          rest := text.dropWhile (· != '\n')
          column := u.column + ((text.takeWhile (· != '\n')).length + 1)
          lineStart := false }, []⟩ := by
    intro u text hu hurest
    have hline : '\n' ∉ ';' :: text.takeWhile (· != '\n') := by
      intro hmem
      obtain heq | hmem := List.mem_cons.1 hmem
      · cases heq
      · simpa using List.mem_takeWhile_imp hmem
    have hdrop : u.rest.drop (';' :: text.takeWhile (· != '\n')).length =
        text.dropWhile (· != '\n') := by
      rw [hurest]
      exact drop_length_of_append (congrArg (';' :: ·) List.takeWhile_append_dropWhile)
    have hread : Lexeme.read u.modes ';' text = (.comment, text.takeWhile (· != '\n')) := rfl
    rw [Scanner.pull_eq_settle hu hurest, hread, Scanner.pass_of_not_mem _ hline]
    show Pulled.mk _ { u with rest := u.rest.drop _, column := _, lineStart := false } [] = _
    rw [hdrop]
    rfl
  rw [hpull hs hleft, hpull ht hright]
  obtain ⟨hbehind, hlength⟩ := hrest.comment
  refine .comment ⟨hbehind, h.line, ?_, h.pending, h.modes, rfl⟩
  refine hlength.imp (fun hlength => ?_) id
  show t.column + _ = s.column + _
  rw [hcolumn, hlength]

/-- The two scanners read the same lexeme. -/
theorem lexeme (hnewline : a ≠ '\n') (hquote : a ≠ '"') (hcomment : a ≠ ';') :
    sp.Brings (s.pull registry) (t.pull registry) := by
  have hplain : ∀ x ∈ (Lexeme.read s.modes a rest).2, IsPlain x := fun x =>
    Lexeme.is_plain_of_mem_read ⟨hnewline, hquote, hcomment⟩
  have hstart : Start.of a ≠ .comment := by
    unfold Start.of
    rw [if_neg hcomment]
    split_ifs <;> decide
  have hconsists := Lexeme.consists_read s.modes a rest
  have hprefix := Lexeme.read_prefix_rest s.modes a rest
  obtain ⟨hlexeme, htail⟩ := Lexeme.read_beside s.modes hab hquote hstart hrest.beside
  rw [Scanner.pull_eq_settle hs hleft, Scanner.pull_eq_settle ht hright, h.modes,
    Lexeme.start_eq hab, hlexeme]
  generalize (Lexeme.read s.modes b rest').2 = tail' at htail ⊢
  generalize Lexeme.read s.modes a rest = found at hplain hconsists hprefix htail ⊢
  obtain ⟨lexeme, tail⟩ := found
  dsimp only at hplain hconsists hprefix htail ⊢
  have htext : List.Forall₂ sp.alike (a :: tail) (b :: tail') := .cons hab htail
  have hline : '\n' ∉ a :: tail := by
    intro hmem
    obtain heq | hmem := List.mem_cons.1 hmem
    · exact hnewline heq.symm
    · exact (hplain _ hmem).ne_newline rfl
  have hline' : '\n' ∉ b :: tail' := sp.not_mem_of_sign rfl htext hline
  have hmarks : '"' ∉ a :: tail := by
    intro hmem
    obtain heq | hmem := List.mem_cons.1 hmem
    · exact hquote heq.symm
    · exact (hplain _ hmem).ne_quote rfl
  -- Neither lexeme has a line end in it, so both scanners move on by the same number of columns.
  have hmoved : sp.Scanners ((s.mapModes (·.start (Start.of a))).pass (a :: tail))
      ((t.mapModes (·.start (Start.of a))).pass (b :: tail')) := by
    rw [Scanner.pass_of_not_mem _ hline, Scanner.pass_of_not_mem _ hline']
    refine ⟨?_, h.line, Or.inl ?_, h.pending, congrArg (Modes.start · _) h.modes, h.lineStart⟩
    · show sp.Texts (s.rest.drop (a :: tail).length) (t.rest.drop (b :: tail').length)
      rw [hleft, hright, ← htext.length_eq]
      refine hrest.drop ?_
      rw [← List.prefix_iff_eq_take.1 hprefix]
      exact fun hmem => hline (List.mem_cons_of_mem a hmem)
    · show t.column + (b :: tail').length = s.column + (a :: tail).length
      rw [hcolumn, htext.length_eq]
  refine hmoved.settle ?_ _ _ htext hmarks (fun hhead => hcomment (Option.some.inj hhead)) hconsists
  rw [Scanner.pass_of_not_mem _ hline, Scanner.pass_of_not_mem _ hline']
  show t.column + (b :: tail').length = s.column + (a :: tail).length
  rw [hcolumn, htext.length_eq]

end Pull

/-- The two scanners bring the same, or the second comes to a carriage return. -/
theorem pull (h : sp.Scanners s t) (registry : Registry) :
    sp.Brings (s.pull registry) (t.pull registry) ∨
      ∃ t', t.pull registry = ⟨.blank, t', []⟩ ∧ sp.Scanners s t' := by
  obtain ⟨hrest, hline, hcolumn, hpending, hmodes, hstart⟩ := id h
  generalize hs : s.pending = waiting at hpending
  generalize ht : t.pending = waiting' at hpending
  cases hpending with
  | @some waiting waiting' hwaiting =>
      have hnone : sp.Scanners { s with pending := none } { t with pending := none } :=
        ⟨hrest, hline, hcolumn, .none, hmodes, hstart⟩
      left
      unfold Scanner.pull
      rw [hs, ht]
      exact hnone.deliver hwaiting.1 hwaiting.2 none .nil
  | none =>
      generalize hleft : s.rest = text at hrest
      generalize hright : t.rest = text' at hrest
      cases hrest with
      | nil =>
          left
          simp only [Scanner.pull, hs, ht, hleft, hright]
          exact .ended h
      | @newline rest rest' hrest =>
          left
          rw [Scanner.pull_newline hs hleft, Scanner.pull_newline ht hright]
          refine .token (.special _) ⟨⟨congrArg (· + 1) hline, rfl, .refl sp _⟩, Or.inl rfl⟩ ?_ .nil
          exact ⟨hrest, congrArg (· + 1) hline, Or.inl rfl, by rw [hs, ht]; exact .none, rfl, rfl⟩
      | @returned rest rest' hrest =>
          -- To the second scanner a carriage return is a blank, while the first one waits.
          right
          refine ⟨_, Scanner.pull_blank (by decide) ht hright, ?_⟩
          exact ⟨hleft ▸ .newline hrest, hline, Or.inr (by rw [hleft]; rfl),
            by rw [hs, ht]; exact .none, hmodes, hstart⟩
      | @char a b rest rest' hab hnewline hquote hrest =>
          left
          have hsame : t.column = s.column := by
            refine hcolumn.resolve_right fun hhead => hnewline ?_
            rw [hleft] at hhead
            exact Option.some.inj hhead
          by_cases hcomment : a = ';'
          · exact comment h hs ht hleft hright hsame hrest hab hcomment
          · exact lexeme h hs ht hleft hright hsame hrest hab hnewline hquote hcomment

end Scanners

/-! ### Compilations -/

/-- Sessions that are the same up to the spelling of the text. -/
structure Sessions (sp : Spelling) (s t : Session) : Prop where
  scanner : sp.Scanners s.scanner t.scanner
  log : sp.Logs s.log t.log
  locals : t.locals = s.locals
  literals : s.literals.Alike sp.likeness t.literals

theorem Sessions.pull {s t : Session} (h : sp.Sessions s t) (env : Environment) :
    PullsAlike sp.likeness (fun _ => sp.Stands) sp.Sessions
      (fun s t => False ∨ True ∧ sp.Sessions s t)
      (s.pull env) (t.pull env) ∨
    ∃ t', t.pull env = (.blank, t') ∧ sp.Sessions s t' := by
  obtain hbrings | ⟨scanner, hblank, hscanner⟩ := h.scanner.pull env.extensions
  · left
    unfold Session.pull
    dsimp only
    generalize s.scanner.pull env.extensions = r at hbrings
    generalize t.scanner.pull env.extensions = r' at hbrings
    cases hbrings with
    | blank hscanner hreports =>
        exact .blank ⟨hscanner, h.log.foldl_enter hreports, h.locals, h.literals⟩
    | token htoken hplace hscanner hreports =>
        exact .token htoken hplace ⟨hscanner, h.log.foldl_enter hreports, h.locals, h.literals⟩
    | comment hscanner => exact .comment ⟨hscanner, h.log, h.locals, h.literals⟩
    | malformed hplace hscanner =>
        refine .malformed (Or.inr ⟨trivial, hscanner, ?_, h.locals, h.literals⟩)
        exact h.log.error (.refl sp _) hplace
    | ended hscanner => exact .ended ⟨hscanner, h.log, h.locals, h.literals⟩
  · right
    exact ⟨_, Session.pull_of_quiet hblank, hscanner, h.log, h.locals, h.literals⟩

/-- The coupling of runs on texts that are spelled alike. Neither run leaves the comparison. -/
def coupling (sp : Spelling) (env : Environment) : ScanCoupling env sp.Stands where
  rel := sp.Sessions
  lost := sp.Sessions
  broken _ := False
  stops _ := True
  reports _ := True
  strict := False
  texts := sp.likeness
  spot := sp.Stands
  literal_alike h := h.2
  place_start := ⟨.refl sp _, Or.inl rfl⟩
  spot_of_place := id
  reports_of_isIncomplete _ := trivial
  lost_of_rel := id
  stops_internal _ := trivial
  broken_of_precedes h _ := h
  broken_putBack h _ _ := h
  locals_eq h := h.locals
  literals_alike h := h.literals
  lineStart_eq h := h.scanner.lineStart
  setLocals h _ := ⟨h.scanner, h.log, rfl, h.literals⟩
  setLiterals h _ _ hpool := ⟨h.scanner, h.log, h.locals, hpool⟩
  mapModes h _ _ := ⟨h.scanner.map_modes _, h.log, h.locals, h.literals⟩
  lost_mapModes h _ _ := ⟨h.scanner.map_modes _, h.log, h.locals, h.literals⟩
  redeliver {s t} h token token' htoken := by
    refine ⟨⟨h.scanner.rest, h.scanner.line, h.scanner.column, .none, h.scanner.modes, ?_⟩, h.log,
      h.locals, h.literals⟩
    exact decide_eq_decide.2 (htoken.special_iff .newline).symm
  putBack h hplace htoken :=
    ⟨⟨h.scanner.rest, h.scanner.line, h.scanner.column, .some ⟨htoken, hplace.place_of_spot id⟩,
      h.scanner.modes,
      h.scanner.lineStart⟩, h.log, h.locals, h.literals⟩
  warning h hplace _ _ hproblem := Or.inr
    ⟨h.scanner, h.log.warning (spells_message hproblem) hplace.1, h.locals, h.literals⟩
  error _ h hplace := Or.inr
    ⟨h.scanner, h.log.error (.refl sp _) hplace.1, h.locals, h.literals⟩
  fail h hplace _ := Or.inr
    ⟨trivial, h.scanner, h.log.error (.refl sp _) hplace.1, h.locals, h.literals⟩
  broken_of_strict h := h.elim
  endOfFile h := Or.inr ⟨trivial, h.scanner, h.log.end_of_file, h.locals, h.literals⟩
  pull h := Or.inr ((h.pull env).imp_left fun h => h.mono fun hl => .of_place _ hl _)

theorem coupling_recovers (sp : Spelling) (env : Environment) : (sp.coupling env).Recovers :=
  ⟨id, fun _ => trivial⟩

theorem coupling_tolerates (sp : Spelling) (env : Environment) :
    ∃ C', (sp.coupling env).Tolerates C' := by
  refine ⟨sp.coupling env, ?_, ?_, fun _ h => h.elim, fun _ h => h⟩
  · intro s t h
    exact ⟨h.scanner, h.log.tolerating true, h.locals, h.literals⟩
  · intro s t s' t' h h'
    refine ⟨h'.scanner, ?_, h'.locals, h'.literals⟩
    show sp.Logs { s'.log with downgrade := s.log.downgrade }
      { t'.log with downgrade := t.log.downgrade }
    rw [h.log.downgrade]
    exact h'.log.tolerating _

/-- The same program, with texts that are alike. -/
structure Programs (sp : Spelling) (program program' : Program) : Prop where
  name : sp.Spells program.name program'.name
  literals : program.literals.Alike sp.likeness program'.literals
  locals : program'.locals = program.locals
  code : program'.code = program.code

/-- The same compilation, with texts that are alike. -/
inductive Compilations (sp : Spelling) {α : Type} (V : α → α → Prop) :
    Compilation α → Compilation α → Prop where
  | ok {a b : α} {log log' : Log} {locals : Locals} (h : V a b) (hlog : sp.Logs log log') :
      Compilations sp V ⟨.ok a, log, locals⟩ ⟨.ok b, log', locals⟩
  | stopped {reason : Abort} {log log' : Log} {locals : Locals} (hlog : sp.Logs log log') :
      Compilations sp V ⟨.error reason, log, locals⟩ ⟨.error reason, log', locals⟩

theorem Compilations.of_result {σ α : Type} {env : Environment} {ρ : σ → σ → Prop}
    {V : α → α → Prop} {r r' : Result σ Unit} (h : (sp.coupling env).Ends ρ Eq r r')
    {make : σ → Session → α}
    (hmake : ∀ p q s t, ρ p q → sp.Sessions s t → V (make p s) (make q t)) :
    sp.Compilations V (Compilation.ofResult r make) (Compilation.ofResult r' make) := by
  cases h with
  | broken h => exact h.elim
  | @ok a b p q s t ha hp h =>
      show sp.Compilations V ⟨.ok (make p s), s.log, s.locals⟩ ⟨.ok (make q t), t.log, t.locals⟩
      rw [h.locals]
      exact .ok (hmake p q s t hp h) h.log
  | @stopped reason p q s t hreason hp h =>
      show sp.Compilations V ⟨.error reason, s.log, s.locals⟩ ⟨.error reason, t.log, t.locals⟩
      rw [h.locals]
      exact .stopped h.log

section Compile

variable {source source' : String} (env : Environment) (log : Log)

/-- At the start of texts that are alike the sessions are the same. -/
theorem sessions_start (h : sp.Texts source.toList source'.toList) (log : Log) (locals : Locals) :
    sp.Sessions { scanner := Scanner.ofText source, log, locals }
      { scanner := Scanner.ofText source', log, locals } :=
  ⟨⟨h, rfl, Or.inl rfl, .none, rfl, rfl⟩, .refl sp log, rfl, .refl _ _⟩

theorem compilations_script (h : sp.Texts source.toList source'.toList) :
    sp.Compilations sp.Programs (compileScript env source log) (compileScript env source' log) := by
  have hends := ScriptFile.scan_sim (coupling_recovers sp env) (coupling_tolerates sp env)
    {} {} _ _ (Nat.le_refl _) (Nat.le_refl _) (.refl _) (sessions_start h log {})
  unfold compileScript
  refine .of_result hends ?_
  rintro p _ s t ⟨name, hname, rfl⟩ h
  exact ⟨spells_of_rel hname, h.literals, h.locals, rfl⟩

theorem compilations_console (h : sp.Texts (source ++ "\n").toList (source' ++ "\n").toList)
    (locals : Locals) :
    sp.Compilations sp.Programs (compileConsole env source log locals)
      (compileConsole env source' log locals) := by
  have hends := Body.scan_sim (coupling_recovers sp env) (coupling_tolerates sp env) false
    { ends := false } { ends := false } _ _ (Nat.le_refl _) (Nat.le_refl _) ⟨rfl, rfl, rfl⟩
    (sessions_start h log locals)
  unfold compileConsole
  refine .of_result hends ?_
  intro p q s t hpq h
  exact ⟨.refl sp _, h.literals, h.locals, hpq.code⟩

theorem compilations_locals (h : sp.Texts source.toList source'.toList) :
    sp.Compilations Eq (scanLocals env source log) (scanLocals env source' log) := by
  have hends := Outline.scan_sim (coupling_recovers sp env)
    () () _ _ (Nat.le_refl _) (Nat.le_refl _) rfl (sessions_start h log {})
  exact .of_result hends fun _ _ _ _ _ h => h.locals.symm

end Compile

end Spelling

/-! ### Carriage returns -/

namespace Spelling

theorem Places.eq {l l' : Location} (h : Spelling.same.Places l l') : l' = l := by
  obtain ⟨line, column, literal⟩ := l
  obtain ⟨line', column', literal'⟩ := l'
  obtain ⟨hline, hcolumn, hliteral⟩ := h
  cases hline
  cases hcolumn
  cases hliteral.eq
  rfl

theorem Diagnostics.eq {d d' : Diagnostic} (h : Spelling.same.Diagnostics d d') : d' = d := by
  obtain ⟨severity, message, location, label⟩ := d
  obtain ⟨severity', message', location', label'⟩ := d'
  obtain ⟨hseverity, hmessage, hlocation, hlabel⟩ := h
  cases hseverity
  cases hmessage.eq
  cases hlabel
  cases hlocation with
  | none => rfl
  | some h => rw [h.eq]

theorem Logs.eq {log log' : Log} (h : Spelling.same.Logs log log') : log' = log := by
  obtain ⟨warnings, errors, mode, downgrade, label, entries⟩ := log
  obtain ⟨warnings', errors', mode', downgrade', label', entries'⟩ := log'
  obtain ⟨hwarnings, herrors, hmode, hdowngrade, hlabel, hentries⟩ := h
  have hsame : entries = entries' :=
    List.forall₂_eq_eq_eq ▸ hentries.imp fun _ _ h => h.eq.symm
  cases hwarnings
  cases herrors
  cases hmode
  cases hdowngrade
  cases hlabel
  cases hsame
  rfl

theorem Programs.eq {program program' : Program} (h : Spelling.same.Programs program program') :
    program' = program := by
  obtain ⟨name, literals, locals, code⟩ := program
  obtain ⟨name', literals', locals', code'⟩ := program'
  obtain ⟨hname, ⟨hintegers, hfloats, hstrings⟩, hlocals, hcode⟩ := h
  have hliterals : literals.Alike .same literals' :=
    ⟨hintegers, hfloats, hstrings.imp fun _ _ h => (spells_of_rel h).eq⟩
  cases hname.eq
  cases hliterals.eq
  cases hlocals
  cases hcode
  rfl

theorem Compilations.eq {α : Type} {V : α → α → Prop} (hV : ∀ a b, V a b → b = a)
    {c c' : Compilation α} (h : Spelling.same.Compilations V c c') : c' = c := by
  cases h with
  | ok h hlog => rw [hV _ _ h, hlog.eq]
  | stopped hlog => rw [hlog.eq]

end Spelling

/-- The text with a carriage return in front of every line end. -/
def withReturns (source : String) : String :=
  String.ofList (source.toList.flatMap fun c => if c = '\n' then ['\r', '\n'] else [c])

theorem texts_with_returns {source : String} (h : '"' ∉ source.toList) :
    Spelling.same.Texts source.toList (withReturns source).toList := by
  rw [withReturns, String.toList_ofList]
  generalize source.toList = text at h
  induction text with
  | nil => exact .nil
  | cons c rest ih =>
      have hc : c ≠ '"' := fun hc => h (hc ▸ List.mem_cons_self)
      have hrest := ih fun hmem => h (List.mem_cons_of_mem c hmem)
      rw [List.flatMap_cons]
      by_cases hline : c = '\n'
      · subst hline
        exact .returned hrest
      · rw [if_neg hline]
        exact .char rfl hline hc hrest

/-- Carriage returns in front of the line ends make no difference. In a script without quotes they
leave the program or the reason why there is none, the local variables and every diagnostic with its
place as they are. -/
theorem compile_with_returns (env : Environment) {source : String} (hquote : '"' ∉ source.toList)
    (log : Log) (locals : Locals) :
    compileScript env (withReturns source) log = compileScript env source log ∧
      compileConsole env (withReturns source) log locals = compileConsole env source log locals ∧
      scanLocals env (withReturns source) log = scanLocals env source log := by
  have htexts := texts_with_returns hquote
  have hconsole :
      Spelling.same.Texts (source ++ "\n").toList (withReturns source ++ "\n").toList := by
    rw [String.toList_append, String.toList_append]
    exact htexts.append_newline
  refine ⟨?_, ?_, ?_⟩
  · exact (Spelling.compilations_script env log htexts).eq fun _ _ => Spelling.Programs.eq
  · exact (Spelling.compilations_console env log hconsole locals).eq fun _ _ =>
      Spelling.Programs.eq
  · exact (Spelling.compilations_locals env log htexts).eq fun _ _ h => h.symm

/-- A script with a comment behind its declaration. -/
def wellScript : String :=
  "begin Well\nshort depth ; in feet\nset depth to 12\nend\n"

theorem well_with_returns :
    withReturns wellScript = "begin Well\r\nshort depth ; in feet\r\nset depth to 12\r\nend\r\n" ∧
      (compileScript {} (withReturns wellScript) {}).outcome.map (·.code.length) = .ok 4 ∧
      compileScript {} (withReturns wellScript) {} = compileScript {} wellScript {} := by
  have hquote : '"' ∉ wellScript.toList := by simp [wellScript]
  obtain ⟨hscript, -, -⟩ := compile_with_returns {} hquote {} {}
  refine ⟨by simp [withReturns, wellScript], ?_, hscript⟩
  rw [hscript]
  decide +kernel

/-! ### Letters in either case -/

/-- The two programs are the same, up to the case of letters in their names and texts. -/
structure Program.UpToCase (program program' : Program) : Prop where
  name : program'.name.map Char.toLower = program.name.map Char.toLower
  code : program'.code = program.code
  integers : program'.literals.integers = program.literals.integers
  floats : program'.literals.floats = program.literals.floats
  strings : program'.literals.strings.map (·.map Char.toLower) =
    program.literals.strings.map (·.map Char.toLower)
  locals : program'.locals = program.locals

/-- The two compilations come to the same up to the case of letters, or stop for the same reason,
with as many warnings and errors. -/
structure Compilation.UpToCase (c c' : Compilation Program) : Prop where
  outcome : (∃ reason, c.outcome = .error reason ∧ c'.outcome = .error reason) ∨
    ∃ program program', c.outcome = .ok program ∧ c'.outcome = .ok program' ∧
      program.UpToCase program'
  locals : c'.locals = c.locals
  warnings : c'.log.warnings = c.log.warnings
  errors : c'.log.errors = c.log.errors

namespace Spelling

variable {sp : Spelling}

theorem Programs.up_to_case {program program' : Program} (h : sp.Programs program program') :
    program.UpToCase program' where
  name := h.name.map_to_lower_eq
  code := h.code
  integers := h.literals.integers
  floats := h.literals.floats
  strings := by
    obtain ⟨-, -, hstrings⟩ := h.literals
    generalize program.literals.strings = strings at hstrings
    generalize program'.literals.strings = strings' at hstrings
    induction hstrings with
    | nil => rfl
    | cons hrel _ ih =>
        rw [List.map_cons, List.map_cons, ih, (spells_of_rel hrel).map_to_lower_eq]
  locals := h.locals

theorem Compilations.up_to_case {c c' : Compilation Program}
    (h : sp.Compilations sp.Programs c c') : c.UpToCase c' := by
  cases h with
  | ok h hlog =>
      exact ⟨Or.inr ⟨_, _, rfl, rfl, h.up_to_case⟩, rfl, hlog.warnings, hlog.errors⟩
  | stopped hlog => exact ⟨Or.inl ⟨_, rfl, rfl⟩, rfl, hlog.warnings, hlog.errors⟩

theorem texts_of_map_to_lower {text text' : List Char}
    (h : text'.map Char.toLower = text.map Char.toLower) (hquote : '"' ∉ text) :
    Spelling.anyCase.Texts text text' := by
  induction text generalizing text' with
  | nil =>
      obtain rfl := List.map_eq_nil_iff.1 h
      exact .nil
  | cons c text ih =>
      obtain ⟨c', text', rfl, hc, htext⟩ := List.map_eq_cons_iff.1 h
      have hrest := ih htext fun hmem => hquote (List.mem_cons_of_mem c hmem)
      by_cases hline : c = '\n'
      · subst hline
        obtain rfl := Spelling.anyCase.eq_of_sign hc rfl
        exact .newline hrest
      · exact .char hc hline (fun heq => hquote (heq ▸ List.mem_cons_self)) hrest

end Spelling

/-- Outside quotes the case of letters does not matter: two scripts without quotes that differ in
it only are compiled to the same code, on the console as well. -/
theorem compile_up_to_case (env : Environment) {source source' : String}
    (hcase : source'.map Char.toLower = source.map Char.toLower) (hquote : '"' ∉ source.toList)
    (log : Log) (locals : Locals) :
    (compileScript env source log).UpToCase (compileScript env source' log) ∧
      (compileConsole env source log locals).UpToCase
        (compileConsole env source' log locals) := by
  have htexts : Spelling.anyCase.Texts source.toList source'.toList := by
    refine Spelling.texts_of_map_to_lower ?_ hquote
    rw [← String.toList_map, hcase, String.toList_map]
  have hconsole : Spelling.anyCase.Texts (source ++ "\n").toList (source' ++ "\n").toList := by
    rw [String.toList_append, String.toList_append]
    exact htexts.append_newline
  exact ⟨(Spelling.compilations_script env log htexts).up_to_case,
    (Spelling.compilations_console env log hconsole locals).up_to_case⟩

theorem well_up_to_case :
    (compileScript {} wellScript {}).outcome.map (·.code.length) = .ok 4 ∧
      (compileScript {} wellScript {}).UpToCase (compileScript {}
        "BEGIN well\nShort DEPTH ; In Feet\nSet Depth To 12\nEnd\n" {}) := by
  have hquote : '"' ∉ wellScript.toList := by simp [wellScript]
  refine ⟨by decide +kernel, (compile_up_to_case {} ?_ hquote {} {}).1⟩
  rw [← String.toList_inj, String.toList_map, String.toList_map]
  simp [wellScript]

end QuestScript
