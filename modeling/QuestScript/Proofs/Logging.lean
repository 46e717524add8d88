import QuestScript.Proofs.Coupling.Body

/-!
# What a compilation does to its log

No reader looks at the log. `LogCoupling` describes how the logs of two runs of the same readers on
the same text may correspond; everything else is then the same in both.

A run amounts to a list of remarks (`Remark`), which does not depend on the log. What the log makes
of them is `Log.after`. From this it follows that a log comes back with its settings, with entries
added, and with its counts in order, and that no reading stops for an error that the log does not
have (`compile_keeps_log`).
-/

namespace QuestScript

open Coupling

/-! ### The reports of the scanner -/

namespace Scanner

/-- The report is a warning. -/
def IsWarning (report : Report) : Prop :=
  ∃ problem location, report = .warning problem location

theorem reports_deliver_word (s : Scanner) (registry : Registry) (name : String)
    (location : Location) (tolerantAfter : Option Bool) (reports : List Report) :
    (s.deliverWord registry name location tolerantAfter reports).reports = reports := by
  unfold deliverWord
  split <;> rfl

theorem is_warning_of_mem_newline_reports {line : Nat} {text : List Char} {report : Report}
    (h : report ∈ newlineReports line text) : IsWarning report := by
  obtain ⟨k, -, rfl⟩ := List.mem_map.1 h
  exact ⟨_, _, rfl⟩

/-- The scanner warns, except about a quoted text that is not closed, which is an error. -/
theorem reports_settle (s : Scanner) (registry : Registry) (line : Nat) (text : List Char)
    (lexeme : Lexeme) :
    (∀ report ∈ (s.settle registry line text lexeme).reports, IsWarning report) ∨
      ∃ l l', (s.settle registry line text lexeme).item = .malformed l ∧
        (s.settle registry line text lexeme).reports = [.error .incompleteString l'] := by
  cases lexeme with
  | openQuote => exact Or.inr ⟨_, _, rfl, rfl⟩
  | quoted body closed =>
      refine Or.inl fun report h => ?_
      unfold settle at h
      dsimp only at h
      split at h
      · exact is_warning_of_mem_newline_reports h
      · rw [reports_deliver_word] at h
        exact is_warning_of_mem_newline_reports h
  | strayQuote | strays =>
      refine Or.inl fun report h => ?_
      exact ⟨_, _, List.mem_singleton.1 h⟩
  | comparison kind proper =>
      refine Or.inl fun report h => ?_
      cases proper with
      | true => cases h
      | false => exact ⟨_, _, List.mem_singleton.1 h⟩
  | word | signedWord =>
      refine Or.inl fun report h => ?_
      unfold settle at h
      rw [reports_deliver_word] at h
      cases h
  | sign special =>
      refine Or.inl fun report h => ?_
      cases special <;> cases h
  | blank | comment | integer | decimal | brokenDecimal | unknown =>
      exact Or.inl (by simp [settle, deliver])

theorem reports_pull (s : Scanner) (registry : Registry) :
    (∀ report ∈ (s.pull registry).reports, IsWarning report) ∨
      ∃ l l', (s.pull registry).item = .malformed l ∧
        (s.pull registry).reports = [.error .incompleteString l'] := by
  unfold pull
  split
  · exact Or.inl (by rintro _ ⟨⟩)
  split
  · exact Or.inl (by rintro _ ⟨⟩)
  · exact reports_settle _ _ _ _ _

end Scanner

/-! ### Runs that differ in their logs -/

/-- How the logs of two runs correspond whose readers, texts, variables and literals are the
same. -/
structure LogCoupling where
  /-- The logs correspond. -/
  rel : Log → Log → Prop
  /-- The logs correspond as far as they have to where the readings stop early. -/
  lost : Log → Log → Prop
  /-- The run on the left is out of the comparison. -/
  broken : Log → Prop
  /-- The reasons for which both readings may stop. -/
  stops : Abort → Prop
  /-- The problems that may be reported as errors by readings that go on. -/
  reports : Problem → Prop
  reports_of_isIncomplete : ∀ {problem}, problem.isIncomplete = true → reports problem
  lost_of_rel : ∀ {log log'}, rel log log' → lost log log'
  stops_internal : ∀ defect, stops (.internal defect)
  broken_of_precedes : ∀ {log later}, broken log → log.Precedes later → broken later
  warning : ∀ {log log'}, rel log log' → ∀ message l,
    broken (log.warning message l) ∨ rel (log.warning message l) (log'.warning message l)
  error : ∀ {log log'} {problem : Problem}, reports problem → rel log log' → ∀ l,
    broken (log.error problem.message l) ∨
      rel (log.error problem.message l) (log'.error problem.message l)
  fail : ∀ {log log'}, rel log log' → ∀ message l,
    broken (log.error message l) ∨
      stops .source ∧ lost (log.error message l) (log'.error message l)
  lost_error : ∀ {log log'}, lost log log' → ∀ message l,
    broken (log.error message l) ∨ lost (log.error message l) (log'.error message l)
  endOfFile : ∀ {log log'}, rel log log' →
    broken log.endOfFile ∨ stops .endOfFile ∧ lost log.endOfFile log'.endOfFile

/-- Sessions that are the same but for their logs, which correspond in the given way. -/
structure Session.SameBut (rel : Log → Log → Prop) (s t : Session) : Prop where
  scanner : t.scanner = s.scanner
  locals : t.locals = s.locals
  literals : t.literals = s.literals
  log : rel s.log t.log

namespace LogCoupling

variable (L : LogCoupling)

theorem warnings {log log' : Log} (h : L.rel log log') (reports : List Report)
    (hreports : ∀ report ∈ reports, Scanner.IsWarning report) :
    L.broken (reports.foldl Log.enter log) ∨
      L.rel (reports.foldl Log.enter log) (reports.foldl Log.enter log') := by
  induction reports generalizing log log' with
  | nil => exact Or.inr h
  | cons report reports ih =>
      obtain ⟨problem, l, rfl⟩ := hreports report List.mem_cons_self
      obtain hbroken | h := L.warning h problem.message l
      · exact Or.inl (L.broken_of_precedes hbroken (Log.precedes_foldl_enter _ reports))
      · exact ih h fun report hmem => hreports report (List.mem_cons_of_mem _ hmem)

/-- Two pulls bring the same, and the scanner's reports keep the logs in correspondence. -/
theorem pull (env : Environment) {s t : Session} (h : s.SameBut L.rel t) :
    L.broken (s.pull env).2.log ∨ PullsAlike .same (fun _ => Eq) (Session.SameBut L.rel)
      (fun s t => L.broken s.log ∨ L.stops .source ∧ s.SameBut L.lost t)
      (s.pull env) (t.pull env) := by
  obtain ⟨hscanner, hlocals, hliterals, hlog⟩ := h
  have hreports := s.scanner.reports_pull env.extensions
  unfold Session.pull
  dsimp only
  rw [hscanner]
  generalize s.scanner.pull env.extensions = pulled at hreports ⊢
  obtain ⟨item, scanner, reports⟩ := pulled
  dsimp only at hreports ⊢
  obtain hwarnings | ⟨l, l', rfl, rfl⟩ := hreports
  · obtain hbroken | hrel := L.warnings hlog reports hwarnings
    · exact Or.inl hbroken
    right
    cases item with
    | blank => exact .blank ⟨rfl, hlocals, hliterals, hrel⟩
    | token token l tolerantAfter =>
        exact .token (.refl _ token) rfl ⟨rfl, hlocals, hliterals, hrel⟩
    | ended => exact .ended ⟨rfl, hlocals, hliterals, hrel⟩
    | malformed l =>
        refine .malformed ?_
        obtain hbroken | ⟨hstops, hlost⟩ := L.fail hrel Problem.syntaxError.message l
        · exact Or.inl hbroken
        · exact Or.inr ⟨hstops, rfl, hlocals, hliterals, hlost⟩
  · -- An open quote is reported by the scanner, and once more where the reading stops.
    obtain hbroken | ⟨hstops, hlost⟩ := L.fail hlog Problem.incompleteString.message l'
    · exact Or.inl hbroken
    · right
      refine .malformed ?_
      obtain hbroken | hlost := L.lost_error hlost Problem.syntaxError.message l
      · exact Or.inl hbroken
      · exact Or.inr ⟨hstops, rfl, hlocals, hliterals, hlost⟩

/-- The coupling of sessions that differ in their logs only. -/
def coupling (env : Environment) : ScanCoupling env Eq where
  rel := Session.SameBut L.rel
  lost := Session.SameBut L.lost
  broken s := L.broken s.log
  stops := L.stops
  reports := L.reports
  strict := False
  texts := .same
  spot := Eq
  literal_alike := by
    rintro l _ rfl
    rfl
  place_start := rfl
  spot_of_place := id
  reports_of_isIncomplete := L.reports_of_isIncomplete
  lost_of_rel h := ⟨h.scanner, h.locals, h.literals, L.lost_of_rel h.log⟩
  stops_internal := L.stops_internal
  broken_of_precedes h hprecedes := L.broken_of_precedes h hprecedes.log
  broken_putBack h _ _ := h
  locals_eq h := h.locals
  literals_alike {s t} h := by
    rw [h.literals]
    exact .refl _ _
  lineStart_eq h := by rw [h.scanner]
  setLocals h _ := ⟨h.scanner, rfl, h.literals, h.log⟩
  setLiterals h _ _ hpool := ⟨h.scanner, h.locals, hpool.eq, h.log⟩
  mapModes {s t} h change _ :=
    ⟨congrArg (Scanner.mapModes · change) h.scanner, h.locals, h.literals, h.log⟩
  lost_mapModes {s t} h change _ :=
    ⟨congrArg (Scanner.mapModes · change) h.scanner, h.locals, h.literals, h.log⟩
  redeliver {s t} h token token' htoken := by
    obtain rfl := htoken.eq
    exact ⟨congrArg (Scanner.redeliver · token') h.scanner, h.locals, h.literals, h.log⟩
  putBack {s t l l' token token'} h hl htoken := by
    obtain rfl := hl.place_of_spot id
    obtain rfl := htoken.eq
    exact ⟨congrArg (Scanner.putBack · token' l) h.scanner, h.locals, h.literals, h.log⟩
  warning := by
    rintro s t l _ h rfl _ problem hproblem
    obtain rfl := hproblem.eq
    obtain hbroken | hlog := L.warning h.log problem.message l
    · exact Or.inl hbroken
    · exact Or.inr ⟨h.scanner, h.locals, h.literals, hlog⟩
  error := by
    rintro s t l _ problem hreports h rfl
    obtain hbroken | hlog := L.error hreports h.log l
    · exact Or.inl hbroken
    · exact Or.inr ⟨h.scanner, h.locals, h.literals, hlog⟩
  fail := by
    rintro s t l _ h rfl problem
    obtain hbroken | ⟨hstops, hlog⟩ := L.fail h.log problem.message l
    · exact Or.inl hbroken
    · exact Or.inr ⟨hstops, h.scanner, h.locals, h.literals, hlog⟩
  broken_of_strict h := h.elim
  endOfFile h := by
    obtain hbroken | ⟨hstops, hlog⟩ := L.endOfFile h.log
    · exact Or.inl hbroken
    · exact Or.inr ⟨hstops, h.scanner, h.locals, h.literals, hlog⟩
  pull h := (L.pull env h).imp_right fun h => Or.inl (h.mono fun hl => .of_place _ hl _)

/-- Logs that correspond where a reading stopped do so as well where it goes on. -/
theorem recovers (env : Environment) (hlost : ∀ {log log'}, L.lost log log' → L.rel log log')
    (hreports : ∀ problem, L.reports problem) : (L.coupling env).Recovers where
  rel_of_lost h := ⟨h.scanner, h.locals, h.literals, hlost h.log⟩
  reports := hreports

end LogCoupling

/-- Sets what becomes of errors. -/
def Log.tolerating (log : Log) (setting : Bool) : Log :=
  { log with downgrade := setting }

theorem LogCoupling.tolerates {L L' : LogCoupling} (env : Environment)
    (hdowngrade : ∀ {log log'}, L.rel log log' → log.downgrade = false ∧ log'.downgrade = false)
    (hdown : ∀ {log log'}, L.rel log log' → L'.rel (log.tolerating true) (log'.tolerating true))
    (hup : ∀ {log log'}, L'.lost log log' → L.rel (log.tolerating false) (log'.tolerating false))
    (hbroken : ∀ {log}, L'.broken log → L.broken (log.tolerating false))
    (hstops : ∀ {reason}, reason ≠ .source → L'.stops reason → L.stops reason) :
    (L.coupling env).Tolerates (L'.coupling env) where
  down h := ⟨h.scanner, h.locals, h.literals, hdown h.log⟩
  up {s t s' t'} h h' := by
    obtain ⟨hs, ht⟩ := hdowngrade h.log
    rw [hs, ht]
    exact ⟨h'.scanner, h'.locals, h'.literals, hup h'.log⟩
  broken {s t s'} h h' := by
    rw [(hdowngrade h.log).1]
    exact hbroken h'
  stops := hstops

/-- Runs with any two logs. -/
def anyCoupling : LogCoupling where
  rel _ _ := True
  lost _ _ := True
  broken _ := False
  stops _ := True
  reports _ := True
  reports_of_isIncomplete _ := trivial
  lost_of_rel := id
  stops_internal _ := trivial
  broken_of_precedes h _ := h
  warning _ _ _ := Or.inr trivial
  error _ _ _ := Or.inr trivial
  fail _ _ _ := Or.inr ⟨trivial, trivial⟩
  lost_error _ _ _ := Or.inr trivial
  endOfFile _ := Or.inr ⟨trivial, trivial⟩

theorem any_coupling_recovers (env : Environment) : (anyCoupling.coupling env).Recovers :=
  LogCoupling.recovers _ env id fun _ => trivial

theorem any_coupling_tolerates (env : Environment) :
    (anyCoupling.coupling env).Tolerates (anyCoupling.coupling env) where
  down h := ⟨h.scanner, h.locals, h.literals, trivial⟩
  up _ h := ⟨h.scanner, h.locals, h.literals, trivial⟩
  broken _ h := h
  stops _ h := h

/-! ### Remarks -/

/-- A problem as it is reported, before the log decides what becomes of it. -/
inductive Remark where
  | warning (message : String) (location : Location)
  | error (message : String) (location : Location)
  /-- A warning or an error that is reported while errors count as warnings. -/
  | tolerated (message : String) (location : Location)
  /-- The text ended too early. -/
  | endOfFile
  deriving DecidableEq

namespace Remark

/-- The message that is recorded. -/
def message : Remark → String
  | .warning message _ | .error message _ | .tolerated message _ => message
  | .endOfFile => "unexpected end of file"

/-- The place that is recorded. -/
def place : Remark → Option Location
  | .warning _ location | .error _ location | .tolerated _ location => some location
  | .endOfFile => none

/-- How serious a remark is taken in a mode, or nothing if it is ignored. -/
def severity? (mode : WarningsMode) : Remark → Option Severity
  | .error .. | .endOfFile => some .error
  | .warning .. =>
    match mode with
    | .ignore => none
    | .normal => some .warning
    | .asErrors => some .error
  | .tolerated .. =>
    match mode with
    | .ignore => none
    | .normal | .asErrors => some .warning

/-- What is recorded of a remark in a mode, with a label. -/
def diagnostic? (mode : WarningsMode) (label : Option String) (remark : Remark) :
    Option Diagnostic :=
  (remark.severity? mode).map (⟨·, remark.message, remark.place, label⟩)

end Remark

namespace Log

/-- The log after one more remark. -/
def note (log : Log) (remark : Remark) : Log :=
  match remark.severity? log.mode with
  | none => log
  | some severity => log.record severity remark.message remark.place

/-- The log after some remarks. -/
def after (log : Log) (trace : List Remark) : Log :=
  trace.foldl note log

theorem after_concat (log : Log) (trace : List Remark) (remark : Remark) :
    log.after (trace ++ [remark]) = (log.after trace).note remark := by
  rw [after, List.foldl_append]
  rfl

theorem note_tolerating (log : Log) (remark : Remark) (setting : Bool) :
    (log.note remark).tolerating setting = (log.tolerating setting).note remark := by
  have hmode : (log.tolerating setting).mode = log.mode := rfl
  unfold note
  rw [hmode]
  cases remark.severity? log.mode <;> rfl

theorem after_tolerating (log : Log) (trace : List Remark) (setting : Bool) :
    (log.after trace).tolerating setting = (log.tolerating setting).after trace := by
  induction trace generalizing log with
  | nil => rfl
  | cons remark trace ih =>
      show ((log.note remark).after trace).tolerating setting = _
      rw [ih, note_tolerating]
      rfl

theorem note_settings (log : Log) (remark : Remark) :
    (log.note remark).mode = log.mode ∧ (log.note remark).label = log.label ∧
      (log.note remark).downgrade = log.downgrade := by
  unfold note
  split <;> exact ⟨rfl, rfl, rfl⟩

/-- Remarks leave the settings alone. -/
theorem after_settings (log : Log) (trace : List Remark) :
    (log.after trace).mode = log.mode ∧ (log.after trace).label = log.label ∧
      (log.after trace).downgrade = log.downgrade := by
  induction trace generalizing log with
  | nil => exact ⟨rfl, rfl, rfl⟩
  | cons remark trace ih =>
      obtain ⟨hmode, hlabel, hdowngrade⟩ := ih (log.note remark)
      obtain ⟨hmode', hlabel', hdowngrade'⟩ := log.note_settings remark
      exact ⟨hmode.trans hmode', hlabel.trans hlabel', hdowngrade.trans hdowngrade'⟩

theorem entries_note (log : Log) (remark : Remark) :
    (log.note remark).entries = log.entries ++ (remark.diagnostic? log.mode log.label).toList := by
  unfold note Remark.diagnostic?
  cases remark.severity? log.mode with
  | none => exact (List.append_nil _).symm
  | some severity => rfl

/-- Remarks are recorded behind what the log has. -/
theorem entries_after (log : Log) (trace : List Remark) :
    (log.after trace).entries =
      log.entries ++ trace.filterMap (Remark.diagnostic? log.mode log.label) := by
  induction trace generalizing log with
  | nil => exact (List.append_nil _).symm
  | cons remark trace ih =>
      obtain ⟨hmode, hlabel, -⟩ := log.note_settings remark
      show ((log.note remark).after trace).entries = _
      rw [ih, entries_note, hmode, hlabel, List.filterMap_cons]
      cases remark.diagnostic? log.mode log.label <;> simp

/-- The counts are those of the recorded warnings and errors. -/
def Counted (log : Log) : Prop :=
  log.warnings = log.entries.countP (·.severity = .warning) ∧
    log.errors = log.entries.countP (·.severity = .error)

theorem Counted.note {log : Log} (h : log.Counted) (remark : Remark) :
    (log.note remark).Counted := by
  unfold Log.note
  cases remark.severity? log.mode with
  | none => exact h
  | some severity =>
      obtain ⟨hwarnings, herrors⟩ := h
      cases severity <;> simp [Counted, record, List.countP_append, hwarnings, herrors]

theorem Counted.after {log : Log} (h : log.Counted) (trace : List Remark) :
    (log.after trace).Counted := by
  induction trace generalizing log with
  | nil => exact h
  | cons remark trace ih => exact ih (h.note remark)

/-- Errors are counted only if they are recorded. -/
theorem errors_note (log : Log) (remark : Remark) :
    (log.note remark).errors = log.errors +
      (if remark.severity? log.mode = some .error then 1 else 0) := by
  unfold note
  cases remark.severity? log.mode with
  | none => rfl
  | some severity => cases severity <;> rfl

/-- If the log has more errors after some remarks, one of them is recorded as an error. -/
theorem exists_error_of_errors_lt {log : Log} {trace : List Remark}
    (h : log.errors < (log.after trace).errors) :
    ∃ entry ∈ trace.filterMap (Remark.diagnostic? log.mode log.label), entry.severity = .error := by
  induction trace generalizing log with
  | nil => exact absurd h (Nat.lt_irrefl _)
  | cons remark trace ih =>
      obtain ⟨hmode, hlabel, -⟩ := log.note_settings remark
      by_cases herror : remark.severity? log.mode = some .error
      · refine ⟨⟨.error, remark.message, remark.place, log.label⟩, ?_, rfl⟩
        refine List.mem_filterMap.2 ⟨remark, List.mem_cons_self, ?_⟩
        rw [Remark.diagnostic?, herror]
        rfl
      · have hsame := log.errors_note remark
        rw [if_neg herror] at hsame
        replace h : (log.note remark).errors < ((log.note remark).after trace).errors := by
          rw [hsame]
          exact h
        obtain ⟨entry, hmem, hentry⟩ := ih h
        rw [hmode, hlabel] at hmem
        obtain ⟨remark', hremark, heq⟩ := List.mem_filterMap.1 hmem
        exact ⟨entry, List.mem_filterMap.2 ⟨remark', List.mem_cons_of_mem _ hremark, heq⟩, hentry⟩

theorem warning_eq_note (log : Log) (message : String) (location : Location) :
    log.warning message location = log.note
      (if log.downgrade then .tolerated message location else .warning message location) := by
  unfold warning note
  cases log.downgrade <;> cases log.mode <;> rfl

theorem error_eq_note (log : Log) (message : String) (location : Location) :
    log.error message location = log.note
      (if log.downgrade then .tolerated message location else .error message location) := by
  unfold error
  cases hdowngrade : log.downgrade with
  | true => simp only [if_true, warning_eq_note, hdowngrade]
  | false => rfl

end Log

/-! ### One list of remarks for every log -/

/-- The logs have heard the same remarks, since they were as given, while errors count as warnings
or not. -/
def SameRemarks (base base' : Log) (tolerant : Bool) (log log' : Log) : Prop :=
  ∃ trace, log = (base.tolerating tolerant).after trace ∧
    log' = (base'.tolerating tolerant).after trace

namespace SameRemarks

variable {base base' log log' : Log} {tolerant : Bool}

theorem downgrade (h : SameRemarks base base' tolerant log log') :
    log.downgrade = tolerant ∧ log'.downgrade = tolerant := by
  obtain ⟨trace, rfl, rfl⟩ := h
  exact ⟨(Log.after_settings _ _).2.2, (Log.after_settings _ _).2.2⟩

theorem note (h : SameRemarks base base' tolerant log log') (remark : Remark) :
    SameRemarks base base' tolerant (log.note remark) (log'.note remark) := by
  obtain ⟨trace, rfl, rfl⟩ := h
  exact ⟨trace ++ [remark], (Log.after_concat _ _ _).symm, (Log.after_concat _ _ _).symm⟩

theorem warning (h : SameRemarks base base' tolerant log log') (message : String) (l : Location) :
    SameRemarks base base' tolerant (log.warning message l) (log'.warning message l) := by
  rw [Log.warning_eq_note, Log.warning_eq_note, h.downgrade.1, h.downgrade.2]
  exact h.note _

theorem error (h : SameRemarks base base' tolerant log log') (message : String) (l : Location) :
    SameRemarks base base' tolerant (log.error message l) (log'.error message l) := by
  rw [Log.error_eq_note, Log.error_eq_note, h.downgrade.1, h.downgrade.2]
  exact h.note _

theorem tolerating (h : SameRemarks base base' tolerant log log') (setting : Bool) :
    SameRemarks base base' setting (log.tolerating setting) (log'.tolerating setting) := by
  obtain ⟨trace, rfl, rfl⟩ := h
  exact ⟨trace, Log.after_tolerating _ _ _, Log.after_tolerating _ _ _⟩

end SameRemarks

/-- Runs with any two logs make the same remarks. -/
def remarksCoupling (base base' : Log) (tolerant : Bool) : LogCoupling where
  rel := SameRemarks base base' tolerant
  lost := SameRemarks base base' tolerant
  broken _ := False
  stops _ := True
  reports _ := True
  reports_of_isIncomplete _ := trivial
  lost_of_rel := id
  stops_internal _ := trivial
  broken_of_precedes h _ := h
  warning h message l := Or.inr (h.warning message l)
  error _ h l := Or.inr (h.error _ l)
  fail h message l := Or.inr ⟨trivial, h.error message l⟩
  lost_error h message l := Or.inr (h.error message l)
  endOfFile h := Or.inr ⟨trivial, h.note .endOfFile⟩

theorem remarks_coupling_recovers (env : Environment) (base base' : Log) (tolerant : Bool) :
    ((remarksCoupling base base' tolerant).coupling env).Recovers :=
  LogCoupling.recovers _ env id fun _ => trivial

theorem remarks_coupling_tolerates (env : Environment) (base base' : Log) :
    ∃ C', ((remarksCoupling base base' false).coupling env).Tolerates C' :=
  ⟨(remarksCoupling base base' true).coupling env, LogCoupling.tolerates env
    SameRemarks.downgrade (fun h => h.tolerating true) (fun h => h.tolerating false) id
    fun _ _ => trivial⟩

/-! ### No failure without an error -/

/-- No error has been counted beyond the given number. -/
structure Untroubled (errors : Nat) (tolerant : Bool) (log log' : Log) : Prop where
  same : log = log'
  errors : log.errors = errors
  downgrade : log.downgrade = tolerant

namespace Untroubled

variable {errors : Nat} {log log' : Log} {tolerant : Bool}

theorem note (h : Untroubled errors tolerant log log') (remark : Remark) :
    errors < (log.note remark).errors ∨
      Untroubled errors tolerant (log.note remark) (log'.note remark) := by
  obtain ⟨rfl, herrors, hdowngrade⟩ := h
  have hcount := log.errors_note remark
  by_cases herror : remark.severity? log.mode = some .error
  · rw [if_pos herror] at hcount
    exact Or.inl (by omega)
  · rw [if_neg herror] at hcount
    exact Or.inr ⟨rfl, by omega, (log.note_settings remark).2.2.trans hdowngrade⟩

theorem error (h : Untroubled errors tolerant log log') (message : String) (l : Location) :
    errors < (log.error message l).errors ∨ tolerant = true ∧
      Untroubled errors tolerant (log.error message l) (log'.error message l) := by
  obtain ⟨rfl, herrors, hdowngrade⟩ := h
  rw [Log.error_eq_note, hdowngrade]
  cases tolerant with
  | true =>
      have hnote := note ⟨rfl, herrors, hdowngrade⟩ (.tolerated message l)
      exact hnote.imp id fun hnote => ⟨rfl, hnote⟩
  | false =>
      left
      show errors < log.errors + 1
      omega

theorem tolerating (h : Untroubled errors tolerant log log') (setting : Bool) :
    Untroubled errors setting (log.tolerating setting) (log'.tolerating setting) := by
  obtain ⟨rfl, herrors, -⟩ := h
  exact ⟨rfl, herrors, rfl⟩

end Untroubled

/-- A run that stops for an error or at the end of the text has counted an error, unless errors
count as warnings. -/
def troubleCoupling (errors : Nat) (tolerant : Bool) : LogCoupling where
  rel := Untroubled errors tolerant
  lost := Untroubled errors tolerant
  broken log := errors < log.errors
  stops reason := reason ≠ .endOfFile ∧ (reason = .source → tolerant = true)
  reports _ := True
  reports_of_isIncomplete _ := trivial
  lost_of_rel := id
  stops_internal _ := ⟨by rintro ⟨⟩, by rintro ⟨⟩⟩
  broken_of_precedes h hprecedes := Nat.lt_of_lt_of_le h hprecedes.errors
  warning {log log'} h message l := by
    obtain rfl := h.same
    rw [Log.warning_eq_note]
    exact h.note _
  error _ h l := (h.error _ l).imp id And.right
  fail h message l := (h.error message l).imp id fun ⟨htolerant, h⟩ =>
    ⟨⟨by rintro ⟨⟩, fun _ => htolerant⟩, h⟩
  lost_error h message l := (h.error message l).imp id And.right
  endOfFile {log log'} h := by
    left
    show errors < log.errors + 1
    rw [h.errors]
    exact Nat.lt_succ_self errors

theorem trouble_coupling_recovers (env : Environment) (errors : Nat) (tolerant : Bool) :
    ((troubleCoupling errors tolerant).coupling env).Recovers :=
  LogCoupling.recovers _ env id fun _ => trivial

theorem trouble_coupling_tolerates (env : Environment) (errors : Nat) :
    ∃ C', ((troubleCoupling errors false).coupling env).Tolerates C' :=
  ⟨(troubleCoupling errors true).coupling env, LogCoupling.tolerates env
    (fun h => ⟨h.downgrade, h.same ▸ h.downgrade⟩) (fun h => h.tolerating true)
    (fun h => h.tolerating false) id fun hne h => ⟨h.1, fun hsource => absurd hsource hne⟩⟩

/-! ### Compilations with two logs -/

namespace LogCoupling

variable {L : LogCoupling} {α : Type}

/-- Two compilations with logs that corresponded at the start: they come to the same, and the logs
correspond, unless the one on the left is out of the comparison. -/
inductive Compiles (L : LogCoupling) : Compilation α → Compilation α → Prop where
  | broken {c c' : Compilation α} (h : L.broken c.log) : Compiles L c c'
  | ok {a : α} {log log' : Log} {locals : Locals} (h : L.rel log log') :
      Compiles L ⟨.ok a, log, locals⟩ ⟨.ok a, log', locals⟩
  | stopped {reason : Abort} {log log' : Log} {locals : Locals} (hreason : L.stops reason)
      (h : L.lost log log') : Compiles L ⟨.error reason, log, locals⟩ ⟨.error reason, log', locals⟩

theorem Compiles.of_result {σ : Type} {env : Environment} {ρ : σ → σ → Prop}
    {r r' : Result σ Unit} (h : (L.coupling env).Ends ρ Eq r r') {make : σ → Session → α}
    (hmake : ∀ p q s t, ρ p q → t.locals = s.locals → t.literals = s.literals →
      make q t = make p s) :
    L.Compiles (Compilation.ofResult r make) (Compilation.ofResult r' make) := by
  cases h with
  | broken h => exact .broken h
  | @ok a b p q s t ha hp h =>
      show L.Compiles ⟨.ok (make p s), s.log, s.locals⟩ ⟨.ok (make q t), t.log, t.locals⟩
      rw [hmake p q s t hp h.locals h.literals, h.locals]
      exact .ok h.log
  | @stopped reason p q s t hreason hp h =>
      show L.Compiles ⟨.error reason, s.log, s.locals⟩ ⟨.error reason, t.log, t.locals⟩
      rw [h.locals]
      exact .stopped hreason h.log

variable {env : Environment} {log log' : Log}

/-- Readings that start on the same text with logs that correspond. -/
theorem ends_run_on {σ : Type} {ρ : σ → σ → Prop} {x : (n : Nat) → Reading n σ Unit} {p q : σ}
    (hx : ∀ n m, (L.coupling env).Sim ρ Eq (x n) (x m)) (hp : ρ p q) (h : L.rel log log')
    (scanner : Scanner) (locals : Locals) :
    (L.coupling env).Ends ρ Eq (Reading.runOn x p { scanner, log, locals })
      (Reading.runOn x q { scanner, log := log', locals }) :=
  hx _ _ p q _ _ _ _ hp ⟨rfl, rfl, rfl, h⟩

variable (hL : (L.coupling env).Recovers) (hdown : ∃ C', (L.coupling env).Tolerates C')
  (h : L.rel log log')

include hL h

theorem compiles_locals (source : String) :
    L.Compiles (scanLocals env source log) (scanLocals env source log') :=
  .of_result (ends_run_on (ρ := Eq) (fun _ _ => Outline.scan_sim hL) rfl h _ _)
    fun _ _ _ _ _ hlocals _ => hlocals

include hdown

theorem compiles_script (source : String) :
    L.Compiles (compileScript env source log) (compileScript env source log') := by
  unfold compileScript
  refine .of_result (ends_run_on (ρ := ScriptFile.Alike (L.coupling env))
    (fun _ _ => ScriptFile.scan_sim hL hdown) (.refl _) h _ _) ?_
  rintro p _ s t ⟨_, rfl, rfl⟩ hlocals hliterals
  rw [hlocals, hliterals]

theorem compiles_console (source : String) (locals : Locals) :
    L.Compiles (compileConsole env source log locals) (compileConsole env source log' locals) := by
  unfold compileConsole
  refine .of_result (ends_run_on (ρ := Body.Alike false false)
    (fun _ _ => Body.scan_sim hL hdown false) ⟨rfl, rfl, rfl⟩ h _ _) ?_
  rintro p q s t ⟨-, -, hcode⟩ hlocals hliterals
  rw [hcode, hlocals, hliterals]

end LogCoupling

/-! ### The log of a compilation -/

theorem Log.tolerating_of_downgrade {log : Log} {setting : Bool} (h : log.downgrade = setting) :
    log.tolerating setting = log := by
  subst h
  rfl

theorem same_remarks_start {log log' : Log} (h : log.downgrade = false)
    (h' : log'.downgrade = false) : SameRemarks log log' false log log' :=
  ⟨[], (Log.tolerating_of_downgrade h).symm, (Log.tolerating_of_downgrade h').symm⟩

namespace Compilation

variable {α : Type} {log log' : Log} {c c' : Compilation α}

/-- The compilations come to the same, and their logs have heard the same remarks. -/
structure SameWith (log log' : Log) (c c' : Compilation α) (trace : List Remark) : Prop where
  outcome : c'.outcome = c.outcome
  locals : c'.locals = c.locals
  log_left : c.log = log.after trace
  log_right : c'.log = log'.after trace

theorem exists_same_with (h : log.downgrade = false) (h' : log'.downgrade = false)
    (hc : (remarksCoupling log log' false).Compiles c c') :
    ∃ trace, SameWith log log' c c' trace := by
  rw [← Log.tolerating_of_downgrade h, ← Log.tolerating_of_downgrade h']
  cases hc with
  | broken h => exact h.elim
  | ok h =>
      obtain ⟨trace, hlog, hlog'⟩ := h
      exact ⟨trace, rfl, rfl, hlog, hlog'⟩
  | stopped _ h =>
      obtain ⟨trace, hlog, hlog'⟩ := h
      exact ⟨trace, rfl, rfl, hlog, hlog'⟩

/-- The log has its settings, entries were added to it, its counts are in order, and it tells why
the compilation failed. -/
structure KeepsLog (log : Log) (c : Compilation α) : Prop where
  mode : c.log.mode = log.mode
  label : c.log.label = log.label
  downgrade : c.log.downgrade = log.downgrade
  counted : log.Counted → c.log.Counted
  entries : ∃ new, c.log.entries = log.entries ++ new ∧
    (c.outcome = .error .source ∨ c.outcome = .error .endOfFile →
      ∃ entry ∈ new, entry.severity = .error)

/-- A compilation that makes its remarks and stops for no error without counting one. -/
theorem KeepsLog.of_compiles (h : log.downgrade = false)
    (hremarks : (remarksCoupling log log false).Compiles c c)
    (htrouble : (troubleCoupling log.errors false).Compiles c c) : c.KeepsLog log := by
  obtain ⟨trace, hsame⟩ := exists_same_with h h hremarks
  have hlog := hsame.log_left
  obtain ⟨hmode, hlabel, hdowngrade⟩ := log.after_settings trace
  refine ⟨hlog ▸ hmode, hlog ▸ hlabel, hlog ▸ hdowngrade,
    fun hcounted => hlog ▸ hcounted.after trace,
    _, hlog ▸ log.entries_after trace, fun hfailed => ?_⟩
  have hlt : log.errors < c.log.errors := by
    cases htrouble with
    | broken h => exact h
    | ok _ => simp at hfailed
    | stopped hreason _ =>
        obtain ⟨hne, hsource⟩ := hreason
        obtain hfailed | hfailed := hfailed
        · cases hfailed
          cases hsource rfl
        · cases hfailed
          exact absurd rfl hne
  rw [hlog] at hlt
  exact Log.exists_error_of_errors_lt hlt

end Compilation

/-- Whatever comes of a compilation, its log comes back with its settings and with entries added,
counts what it records, and has an error if the compilation stopped for an error or at the end of
the text. -/
theorem compile_keeps_log (env : Environment) (source : String) {log : Log}
    (h : log.downgrade = false) :
    (compileScript env source log).KeepsLog log ∧
      (∀ locals, (compileConsole env source log locals).KeepsLog log) ∧
      (scanLocals env source log).KeepsLog log := by
  have hremarks := remarks_coupling_recovers env log log false
  have hremarks' := remarks_coupling_tolerates env log log
  have hsame := same_remarks_start h h
  have htrouble := trouble_coupling_recovers env log.errors false
  have htrouble' := trouble_coupling_tolerates env log.errors
  have hstart : Untroubled log.errors false log log := ⟨rfl, rfl, h⟩
  refine ⟨?_, fun locals => ?_, ?_⟩
  · exact .of_compiles h (LogCoupling.compiles_script hremarks hremarks' hsame source)
      (LogCoupling.compiles_script htrouble htrouble' hstart source)
  · exact .of_compiles h (LogCoupling.compiles_console hremarks hremarks' hsame source locals)
      (LogCoupling.compiles_console htrouble htrouble' hstart source locals)
  · exact .of_compiles h (LogCoupling.compiles_locals hremarks hsame source)
      (LogCoupling.compiles_locals htrouble hstart source)

/-- A script that is not ended, compiled with a log that has a label and an earlier warning. -/
theorem cut_keeps_log :
    (compileScript {} "begin cut\nshort a\nset b to 1\n"
        { mode := .asErrors, label := some "cut", warnings := 1,
          entries := [⟨.warning, "Stray else", none, none⟩] }).outcome = .error .endOfFile ∧
      (compileScript {} "begin cut\nshort a\nset b to 1\n"
        { mode := .asErrors, label := some "cut", warnings := 1,
          entries := [⟨.warning, "Stray else", none, none⟩] }).KeepsLog
        { mode := .asErrors, label := some "cut", warnings := 1,
          entries := [⟨.warning, "Stray else", none, none⟩] } :=
  ⟨by decide +kernel, (compile_keeps_log {} _ rfl).1⟩

end QuestScript
