import QuestScript.Proofs.Coupling.Statement
import QuestScript.Proofs.Lexemes

/-!
# The same text at different places

Two scanners that have the same text ahead of them deliver the same tokens, wherever the text
stands. `Scanner.Beside` leaves open which texts the two scanners have ahead, so that one text may
also end earlier than the other. The main theorem is `Scanner.Beside.settle`. The logs that the two
runs leave differ only in the places of their diagnostics (`Log.AlikeSince`).
-/

namespace QuestScript

open Coupling

/-! ### Scanners side by side -/

/-- Reports of the same problem, wherever. -/
inductive Report.Alike : Report → Report → Prop where
  | warning (problem : Problem) (l l' : Location) :
      Alike (.warning problem l) (.warning problem l')
  | error (problem : Problem) (l l' : Location) : Alike (.error problem l) (.error problem l')

/-- The token has the same spelling at both places. -/
def Token.SpelledSame (_ : Token) (l l' : Location) : Prop :=
  l'.literal = l.literal

/-- Items that are the same but for their place. It is given which places are good for a token. -/
inductive Item.Alike (spelled : Token → Location → Location → Prop) : Item → Item → Prop where
  | blank : Alike spelled .blank .blank
  | token (token : Token) (tolerantAfter : Option Bool) {l l' : Location}
      (h : spelled token l l') :
      Alike spelled (.token token l tolerantAfter) (.token token l' tolerantAfter)
  | malformed (l l' : Location) : Alike spelled (.malformed l) (.malformed l')
  | ended : Alike spelled .ended .ended

theorem Item.Alike.is_passed {spelled : Token → Location → Location → Prop} {item item' : Item}
    (h : item.Alike spelled item') (hpass : item.IsPassed) : item'.IsPassed := by
  cases h with
  | blank => trivial
  | token token tolerantAfter hl => cases token <;> exact hpass
  | malformed l l' => exact hpass
  | ended => exact hpass

namespace Scanner

/-- The scanners are alike but for their places, the texts ahead of them correspond, and the token
that has been put back stands at places that are good for it. -/
structure Beside (spelled : Token → Location → Location → Prop)
    (texts : List Char → List Char → Prop) (s t : Scanner) : Prop where
  rest : texts s.rest t.rest
  pending : Option.Rel (fun a b => a.1 = b.1 ∧ spelled a.1 a.2 b.2) s.pending t.pending
  modes : t.modes = s.modes
  lineStart : t.lineStart = s.lineStart

namespace Beside

variable {spelled : Token → Location → Location → Prop} {texts : List Char → List Char → Prop}
  {s t : Scanner} {registry : Registry}

theorem map_modes (h : s.Beside spelled texts t) (change : Modes → Modes) :
    (s.mapModes change).Beside spelled texts (t.mapModes change) where
  rest := h.rest
  pending := h.pending
  modes := by
    show change t.modes = change s.modes
    rw [h.modes]
  lineStart := h.lineStart

theorem pass (h : s.Beside spelled texts t) {text : List Char}
    (hrest : texts (s.rest.drop text.length) (t.rest.drop text.length)) :
    (s.pass text).Beside spelled texts (t.pass text) where
  rest := hrest
  pending := h.pending
  modes := by
    show (if _ then t.modes.newLine else t.modes) = if _ then s.modes.newLine else s.modes
    rw [h.modes]
  lineStart := h.lineStart

theorem put_back (h : s.Beside spelled texts t) {token : Token} {l l' : Location}
    (hl : spelled token l l') : (s.putBack token l).Beside spelled texts (t.putBack token l') :=
  ⟨h.rest, .some ⟨rfl, hl⟩, h.modes, h.lineStart⟩

theorem redeliver (h : s.Beside spelled texts t) (token : Token) :
    (s.redeliver token).Beside spelled texts (t.redeliver token) :=
  ⟨h.rest, .none, h.modes, rfl⟩

/-- What two scanners bring. -/
structure Brings (spelled : Token → Location → Location → Prop)
    (texts : List Char → List Char → Prop) (r r' : Pulled) : Prop where
  item : r.item.Alike spelled r'.item
  scanner : r.scanner.Beside spelled texts r'.scanner
  reports : List.Forall₂ Report.Alike r.reports r'.reports

theorem deliver (h : s.Beside spelled texts t) {token : Token} {l l' : Location}
    (hl : spelled token l l') (tolerantAfter : Option Bool) {reports reports' : List Report}
    (hreports : List.Forall₂ Report.Alike reports reports') :
    Brings spelled texts (s.deliver token l tolerantAfter reports)
      (t.deliver token l' tolerantAfter reports') where
  item := .token token tolerantAfter hl
  scanner := ⟨h.rest, h.pending, h.modes, rfl⟩
  reports := hreports

theorem newline_reports (line line' : Nat) (text : List Char) :
    List.Forall₂ Report.Alike (Scanner.newlineReports line text)
      (Scanner.newlineReports line' text) := by
  unfold Scanner.newlineReports
  rw [List.forall₂_map_left_iff, List.forall₂_map_right_iff]
  exact List.forall₂_same.2 fun _ _ => .warning _ _ _

/-- Two scanners that have a token to deliver once more. -/
theorem pull_of_pending (h : s.Beside spelled texts t) (hpending : s.pending ≠ none) :
    Brings spelled texts (s.pull registry) (t.pull registry) := by
  obtain ⟨hrest, hrel, hmodes, hstart⟩ := h
  generalize hs : s.pending = waiting at hrel hpending
  generalize ht : t.pending = waiting' at hrel
  cases hrel with
  | none => exact absurd rfl hpending
  | @some waiting waiting' hwaiting =>
      obtain ⟨token, l⟩ := waiting
      obtain ⟨_, l'⟩ := waiting'
      obtain ⟨rfl, hl⟩ := hwaiting
      have hnone : ({ s with pending := none } : Scanner).Beside spelled texts
          { t with pending := none } :=
        ⟨hrest, .none, hmodes, hstart⟩
      unfold Scanner.pull
      rw [hs, ht]
      exact hnone.deliver hl none .nil

theorem pending_eq_none (h : s.Beside spelled texts t) (hs : s.pending = none) :
    t.pending = none := by
  have hrel := h.pending
  rw [hs] at hrel
  generalize t.pending = waiting at hrel
  cases hrel
  rfl

section Settle

/-! Places with the same spelling are good for every token. -/

variable (hspelled : ∀ (token : Token) {l l' : Location},
  token.SpelledSame l l' → spelled token l l')

include hspelled

theorem deliver_word (h : s.Beside spelled texts t) (registry : Registry) (name : String)
    {l l' : Location} (hl : l'.literal = l.literal) (tolerantAfter : Option Bool)
    {reports reports' : List Report} (hreports : List.Forall₂ Report.Alike reports reports') :
    Brings spelled texts (s.deliverWord registry name l tolerantAfter reports)
      (t.deliverWord registry name l' tolerantAfter reports') := by
  unfold Scanner.deliverWord
  split
  · exact h.deliver (hspelled _ hl) _ hreports
  · dsimp only
    split
    · exact (h.map_modes _).deliver (hspelled _ hl) _ hreports
    · exact h.deliver (hspelled _ hl) _ hreports

/-- Behind the same lexeme both scanners bring the same. -/
theorem settle (h : s.Beside spelled texts t) (line line' : Nat) (text : List Char)
    (lexeme : Lexeme) :
    Brings spelled texts (s.settle registry line text lexeme)
      (t.settle registry line' text lexeme) := by
  have hplace (token : Token) (literal : List Char) :
      spelled token (s.location literal) (t.location literal) :=
    hspelled token rfl
  cases lexeme with
  | blank => exact ⟨.blank, h, .nil⟩
  | comment => exact h.deliver (hplace _ _) _ .nil
  | word => exact h.deliver_word hspelled _ _ (by rfl) _ .nil
  | signedWord =>
      unfold Scanner.settle
      dsimp only
      rw [h.modes]
      exact (h.map_modes _).deliver_word hspelled _ _ (by rfl) _ .nil
  | quoted body closed =>
      unfold Scanner.settle
      dsimp only
      rw [h.modes]
      split
      · exact h.deliver (hplace _ _) _ (newline_reports _ _ _)
      · exact h.deliver_word hspelled _ _ (by rfl) _ (newline_reports _ _ _)
  | strayQuote => exact ⟨.blank, h, .cons (.warning _ _ _) .nil⟩
  | openQuote => exact ⟨.malformed _ _, h, .cons (.error _ _ _) .nil⟩
  | integer => exact h.deliver (hplace _ _) _ .nil
  | decimal whole fraction => exact h.deliver (hplace _ _) _ .nil
  | brokenDecimal => exact ⟨.malformed _ _, h, .nil⟩
  | strays => exact ⟨.blank, h, .cons (.warning _ _ _) .nil⟩
  | sign special =>
      cases special with
      | newline => exact (h.map_modes _).deliver (hspelled _ (by rfl)) _ .nil
      | _ => exact h.deliver (hplace _ _) _ .nil
  | comparison kind proper =>
      unfold Scanner.settle
      dsimp only
      refine h.deliver (hplace _ _) _ ?_
      cases proper with
      | true => exact .nil
      | false => exact .cons (.warning _ _ _) .nil
  | unknown => exact ⟨.malformed _ _, h, .nil⟩

/-- Two scanners that read the same lexeme. -/
theorem pull_of_read (h : s.Beside spelled texts t) (hs : s.pending = none) {c : Char}
    {rest rest' : List Char} (hrest : s.rest = c :: rest) (hrest' : t.rest = c :: rest')
    (hread : Lexeme.read s.modes c rest' = Lexeme.read s.modes c rest)
    (htexts : texts (rest.drop (Lexeme.read s.modes c rest).2.length)
      (rest'.drop (Lexeme.read s.modes c rest).2.length)) :
    Brings spelled texts (s.pull registry) (t.pull registry) := by
  rw [pull_eq_settle hs hrest, pull_eq_settle (h.pending_eq_none hs) hrest', h.modes, hread]
  refine ((h.map_modes _).pass ?_).settle hspelled _ _ _ _
  show texts (s.rest.drop _) (t.rest.drop _)
  rw [hrest, hrest']
  exact htexts

/-- Two scanners that have the same text ahead. -/
theorem pull_of_same (h : s.Beside spelled (fun text text' => text' = text) t) :
    Brings spelled (fun text text' => text' = text) (s.pull registry) (t.pull registry) := by
  by_cases hs : s.pending = none
  · cases hrest : s.rest with
    | nil =>
        have ht := h.pending_eq_none hs
        have hrest' : t.rest = [] := h.rest.trans hrest
        unfold Scanner.pull
        rw [hs, ht, hrest, hrest']
        exact ⟨.ended, h, .nil⟩
    | cons c rest => exact h.pull_of_read hspelled hs hrest (h.rest.trans hrest) rfl rfl
  · exact h.pull_of_pending hs

end Settle

end Beside

/-- The scanners have the same text ahead. -/
abbrev Displaced (s t : Scanner) : Prop :=
  s.Beside Token.SpelledSame (fun text text' => text' = text) t

theorem Displaced.pull {s t : Scanner} (h : s.Displaced t) (registry : Registry) :
    Beside.Brings Token.SpelledSame (fun text text' => text' = text) (s.pull registry)
      (t.pull registry) :=
  h.pull_of_same fun _ _ _ => id

end Scanner

/-! ### Logs side by side -/

/-- Diagnostics that are the same but for their places. -/
structure Diagnostic.Alike (d d' : Diagnostic) : Prop where
  severity : d'.severity = d.severity
  message : d'.message = d.message
  label : d'.label = d.label

/-- Since the two logs were `base` and `base'`, the same has been counted in both, and the same has
been recorded but for the places. -/
structure Log.AlikeSince (base base' log log' : Log) : Prop where
  mode : log'.mode = log.mode
  downgrade : log'.downgrade = log.downgrade
  label : log'.label = log.label
  warnings : log'.warnings + base.warnings = log.warnings + base'.warnings
  errors : log'.errors + base.errors = log.errors + base'.errors
  entries : ∃ added added', log.entries = base.entries ++ added ∧
    log'.entries = base'.entries ++ added' ∧ List.Forall₂ Diagnostic.Alike added added'

namespace Log.AlikeSince

variable {base base' log log' : Log}

theorem refl (hmode : base'.mode = base.mode) (hdowngrade : base'.downgrade = base.downgrade)
    (hlabel : base'.label = base.label) : AlikeSince base base' base base' :=
  ⟨hmode, hdowngrade, hlabel, Nat.add_comm _ _, Nat.add_comm _ _, [], [],
    (List.append_nil _).symm, (List.append_nil _).symm, .nil⟩

/-- Two logs of which the second has one warning more. -/
theorem warned (log : Log) (message : String) (l : Location) :
    AlikeSince log (log.warning message l) log (log.warning message l) := by
  have hprecedes := log.precedes_warning message l
  exact .refl hprecedes.mode hprecedes.downgrade hprecedes.label

theorem record (h : AlikeSince base base' log log') (severity : Severity) (message : String)
    (place place' : Option Location) :
    AlikeSince base base' (log.record severity message place)
      (log'.record severity message place') := by
  obtain ⟨added, added', hadded, hadded', halike⟩ := h.entries
  refine ⟨h.mode, h.downgrade, h.label, ?_, ?_, added ++ [⟨severity, message, place, log.label⟩],
    added' ++ [⟨severity, message, place', log'.label⟩], ?_, ?_, ?_⟩
  · have hwarnings := h.warnings
    simp only [Log.record]
    omega
  · have herrors := h.errors
    simp only [Log.record]
    omega
  · simp only [Log.record, hadded, List.append_assoc]
  · simp only [Log.record, hadded', List.append_assoc]
  · exact List.rel_append halike (.cons ⟨rfl, rfl, h.label⟩ .nil)

theorem warning (h : AlikeSince base base' log log') (message : String) (l l' : Location) :
    AlikeSince base base' (log.warning message l) (log'.warning message l') := by
  unfold Log.warning
  rw [h.mode, h.downgrade]
  cases log.mode with
  | ignore => exact h
  | normal => exact h.record _ _ _ _
  | asErrors => exact h.record _ _ _ _

theorem error (h : AlikeSince base base' log log') (message : String) (l l' : Location) :
    AlikeSince base base' (log.error message l) (log'.error message l') := by
  unfold Log.error
  rw [h.downgrade]
  split
  · exact h.warning _ _ _
  · exact h.record _ _ _ _

theorem foldl_enter (h : AlikeSince base base' log log') {reports reports' : List Report}
    (hreports : List.Forall₂ Report.Alike reports reports') :
    AlikeSince base base' (reports.foldl Log.enter log) (reports'.foldl Log.enter log') := by
  induction hreports generalizing log log' with
  | nil => exact h
  | cons hreport _ ih =>
      cases hreport with
      | warning problem l l' => exact ih (h.warning _ _ _)
      | error problem l l' => exact ih (h.error _ _ _)

theorem downgraded (h : AlikeSince base base' log log') (setting : Bool) :
    AlikeSince base base' { log with downgrade := setting } { log' with downgrade := setting } :=
  ⟨h.mode, rfl, h.label, h.warnings, h.errors, h.entries⟩

end Log.AlikeSince

end QuestScript
