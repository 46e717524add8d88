import QuestScript.Proofs.Buttons
import QuestScript.Proofs.Coupling.Scanners
import QuestScript.Proofs.Logging
import QuestScript.Proofs.StackSafety

/-!
# Scripts on the console

The body of a script can be compiled on the console, where the text ends with its last line and
there is no `end`. The two compilations are run side by side: the one of the script has the last
line of the script ahead of it, and leaves the comparison when it comes to that or counts an error.

The main statement is `compile_console_of_compile_script`: the console takes every body that a
script may have, and makes the same code of it.
-/

namespace QuestScript

open Coupling
open Reading (Takes Scans runOn)

variable {env : Environment}

/-! ### Texts with and without a last line -/

/-- The last line of a script. -/
def closingLine : List Char := ['e', 'n', 'd', '\n']

/-- The text on the left has the last line of a script behind the lines on the right. -/
def Closed (text text' : List Char) : Prop :=
  text = text' ++ closingLine ∧ ∀ c ∈ text'.getLast?, c = '\n'

theorem Closed.drop {text text' : List Char} (h : Closed text text') {k : Nat}
    (hle : k ≤ text'.length) : Closed (text.drop k) (text'.drop k) := by
  refine ⟨by rw [h.1, List.drop_append_of_le_length hle], fun c hc => h.2 c ?_⟩
  have hdrop : (text'.drop k).getLast? = some c := hc
  rw [List.getLast?_drop] at hdrop
  split at hdrop
  · cases hdrop
  · exact hdrop

namespace Scanner

/-- The scanner on the left has the last line of a script behind the lines of the one on the
right. -/
structure Ahead (s t : Scanner) : Prop where
  rest : s.rest = t.rest ++ closingLine
  line : ∀ c ∈ t.rest.getLast?, c = '\n'
  pending : Option.Rel (fun a b => a.1 = b.1 ∧ b.2.literal = a.2.literal) s.pending t.pending
  modes : t.modes = s.modes
  lineStart : t.lineStart = s.lineStart

theorem ahead_iff {s t : Scanner} : s.Ahead t ↔ s.Beside Token.SpelledSame Closed t :=
  ⟨fun h => ⟨⟨h.rest, h.line⟩, h.pending, h.modes, h.lineStart⟩,
    fun h => ⟨h.rest.1, h.rest.2, h.pending, h.modes, h.lineStart⟩⟩

theorem Ahead.map_modes {s t : Scanner} (h : s.Ahead t) (change : Modes → Modes) :
    (s.mapModes change).Ahead (t.mapModes change) :=
  ahead_iff.2 ((ahead_iff.1 h).map_modes change)

/-- The two scanners bring the same, unless the one on the left reads into the last line. -/
theorem Ahead.pull {s t : Scanner} (h : s.Ahead t) (registry : Registry) :
    (s.pull registry).scanner.rest.length < closingLine.length ∨
      Beside.Brings Token.SpelledSame Closed (s.pull registry) (t.pull registry) := by
  replace h := ahead_iff.1 h
  by_cases hs : s.pending = none
  · obtain ⟨hrest, hline⟩ := id h.rest
    cases htext : t.rest with
    | nil =>
        -- Only the last line is left.
        rw [htext] at hrest
        left
        rw [rest_pull hs hrest]
        simp [closingLine]
        omega
    | cons c r =>
        have hclosed := h.rest
        rw [htext] at hrest hline hclosed
        rw [List.cons_append] at hrest
        have hread : Lexeme.read s.modes c (r ++ closingLine) = Lexeme.read s.modes c r ∨
            (Lexeme.read s.modes c (r ++ closingLine)).2 = r ++ closingLine := by
          by_cases hr : r = []
          · subst hr
            obtain rfl := hline c rfl
            exact Or.inl rfl
          · refine Lexeme.read_append ?_ (by decide)
            have hlast := List.getLast?_eq_some_getLast hr
            rw [← hline (r.getLast hr) (by rw [List.getLast?_cons, hlast]; rfl)]
            exact List.getLast_mem hr
        obtain hread | hall := hread
        · right
          have hle := (Lexeme.read_prefix_rest s.modes c r).length_le
          refine h.pull_of_read (fun _ _ _ => id) hs hrest htext hread.symm ?_
          rw [hread]
          have hdrop := hclosed.drop (k := (Lexeme.read s.modes c r).2.length + 1)
            (Nat.succ_le_succ hle)
          rw [hrest] at hdrop
          exact hdrop
        · left
          rw [rest_pull hs hrest, hall, List.drop_length]
          decide
  · exact Or.inr (h.pull_of_pending hs)

end Scanner

/-! ### A script beside the console -/

/-- The logs have counted the same, and no error beyond the given number. -/
structure Log.Level (errors : Nat) (tolerant : Bool) (log log' : Log) : Prop where
  warnings : log'.warnings = log.warnings
  mode : log'.mode = log.mode
  errors_left : log.errors = errors
  errors_right : log'.errors = errors
  downgrade_left : log.downgrade = tolerant
  downgrade_right : log'.downgrade = tolerant

namespace Log.Level

variable {errors : Nat} {tolerant : Bool} {log log' : Log}

theorem record (h : Level errors tolerant log log') (message : String)
    (place place' : Option Location) :
    Level errors tolerant (log.record .warning message place)
      (log'.record .warning message place') where
  warnings := by simp [Log.record, h.warnings]
  mode := h.mode
  errors_left := by simp [Log.record, h.errors_left]
  errors_right := by simp [Log.record, h.errors_right]
  downgrade_left := h.downgrade_left
  downgrade_right := h.downgrade_right

theorem errors_lt_record (h : Level errors tolerant log log') (message : String)
    (place : Option Location) : errors < (log.record .error message place).errors := by
  show errors < log.errors + 1
  rw [h.errors_left]
  exact Nat.lt_succ_self errors

theorem warning (h : Level errors tolerant log log') (message : String) (l l' : Location) :
    errors < (log.warning message l).errors ∨
      Level errors tolerant (log.warning message l) (log'.warning message l') := by
  unfold Log.warning
  rw [h.mode, h.downgrade_left, h.downgrade_right]
  cases log.mode with
  | ignore => exact Or.inr h
  | normal => exact Or.inr (h.record _ _ _)
  | asErrors =>
      cases tolerant with
      | true => exact Or.inr (h.record _ _ _)
      | false => exact Or.inl (h.errors_lt_record _ _)

theorem error (h : Level errors tolerant log log') (message : String) (l l' : Location) :
    errors < (log.error message l).errors ∨
      tolerant = true ∧ Level errors tolerant (log.error message l) (log'.error message l') := by
  unfold Log.error
  rw [h.downgrade_left, h.downgrade_right]
  cases tolerant with
  | true => exact (h.warning message l l').imp id fun h => ⟨rfl, h⟩
  | false => exact Or.inl (h.errors_lt_record _ _)

theorem enter (h : Level errors tolerant log log') {report report' : Report}
    (hreport : report.Alike report') :
    errors < (log.enter report).errors ∨
      Level errors tolerant (log.enter report) (log'.enter report') := by
  cases hreport with
  | warning problem l l' => exact h.warning _ _ _
  | error problem l l' => exact (h.error _ _ _).imp id And.right

theorem foldl_enter (h : Level errors tolerant log log') {reports reports' : List Report}
    (hreports : List.Forall₂ Report.Alike reports reports') :
    errors < (reports.foldl Log.enter log).errors ∨
      Level errors tolerant (reports.foldl Log.enter log) (reports'.foldl Log.enter log') := by
  induction hreports generalizing log log' with
  | nil => exact Or.inr h
  | @cons report report' reports reports' hreport hreports ih =>
      obtain hlt | h := h.enter hreport
      · exact Or.inl (Nat.lt_of_lt_of_le hlt (Log.precedes_foldl_enter _ reports).errors)
      · exact ih h

theorem tolerating (h : Level errors tolerant log log') (setting : Bool) :
    Level errors setting { log with downgrade := setting } { log' with downgrade := setting } :=
  ⟨h.warnings, h.mode, h.errors_left, h.errors_right, rfl, rfl⟩

end Log.Level

/-- The session on the left has the last line of a script ahead of it, and otherwise the two are
alike. -/
structure Session.Ahead (errors : Nat) (tolerant : Bool) (s t : Session) : Prop where
  scanner : s.scanner.Ahead t.scanner
  locals : t.locals = s.locals
  literals : t.literals = s.literals
  log : s.log.Level errors tolerant t.log

/-- The session has read into the last line, or has counted an error. -/
def Session.IsPast (errors : Nat) (s : Session) : Prop :=
  s.scanner.rest.length < closingLine.length ∨ errors < s.log.errors

theorem Session.IsPast.of_precedes {errors : Nat} {s t : Session} (h : s.IsPast errors)
    (hprecedes : s.Precedes t) : t.IsPast errors := by
  obtain hrest | hlog := h
  · left
    have hunread := hprecedes.unread
    unfold Session.unread Scanner.unread at hunread
    split at hunread <;> split at hunread <;> omega
  · exact Or.inr (Nat.lt_of_lt_of_le hlog hprecedes.log.errors)

theorem Session.Ahead.pull {errors : Nat} {tolerant : Bool} {s t : Session}
    (h : s.Ahead errors tolerant t) (env : Environment) :
    (s.pull env).2.IsPast errors ∨ (s.pull env).1.Alike Token.SpelledSame (t.pull env).1 ∧
      (s.pull env).2.Ahead errors tolerant (t.pull env).2 := by
  obtain hrest | ⟨hitem, hscanner, hreports⟩ := h.scanner.pull env.extensions
  · exact Or.inl (Or.inl hrest)
  · obtain hlt | hlog := h.log.foldl_enter hreports
    · exact Or.inl (Or.inr hlt)
    · exact Or.inr ⟨hitem, Scanner.ahead_iff.2 hscanner, h.locals, h.literals, hlog⟩

/-- A script on the left and the console on the right. The script leaves the comparison at its last
line, and when it counts an error. -/
def consoleCoupling (env : Environment) (errors : Nat) (tolerant : Bool) :
    ScanCoupling env fun l l' => l'.literal = l.literal where
  rel := Session.Ahead errors tolerant
  lost := Session.Ahead errors tolerant
  broken := Session.IsPast errors
  stops _ := True
  reports _ := True
  strict := tolerant = false
  texts := .same
  spot l l' := l'.literal = l.literal
  literal_alike := @alike_of_literal
  place_start := literal_start
  spot_of_place := @spot_of_literal
  reports_of_isIncomplete := @reports_all
  lost_of_rel := id
  stops_internal := stops_all
  broken_of_precedes := Session.IsPast.of_precedes
  broken_putBack h _ _ := h
  locals_eq h := h.locals
  literals_alike {s t} h := by
    rw [h.literals]
    exact .refl _ _
  lineStart_eq h := h.scanner.lineStart
  setLocals h _ := ⟨h.scanner, rfl, h.literals, h.log⟩
  setLiterals h _ _ hpool := ⟨h.scanner, h.locals, hpool.eq, h.log⟩
  mapModes h _ _ := ⟨h.scanner.map_modes _, h.locals, h.literals, h.log⟩
  lost_mapModes h _ _ := ⟨h.scanner.map_modes _, h.locals, h.literals, h.log⟩
  redeliver h _ _ htoken := by
    obtain rfl := htoken.eq
    exact ⟨⟨h.scanner.rest, h.scanner.line, .none, h.scanner.modes, rfl⟩, h.locals, h.literals,
      h.log⟩
  putBack h hl htoken := by
    obtain rfl := htoken.eq
    exact ⟨⟨h.scanner.rest, h.scanner.line, .some ⟨rfl, hl.place_of_spot id⟩, h.scanner.modes,
      h.scanner.lineStart⟩, h.locals, h.literals, h.log⟩
  warning h _ _ problem hproblem := by
    obtain rfl := hproblem.eq
    exact (h.log.warning problem.message _ _).imp Or.inr fun hlog =>
      ⟨h.scanner, h.locals, h.literals, hlog⟩
  error _ h _ := (h.log.error _ _ _).imp Or.inr fun ⟨_, hlog⟩ =>
    ⟨h.scanner, h.locals, h.literals, hlog⟩
  fail h _ problem := (h.log.error problem.message _ _).imp Or.inr fun ⟨_, hlog⟩ =>
    ⟨trivial, h.scanner, h.locals, h.literals, hlog⟩
  broken_of_strict {s t} htolerant h problem l := by
    obtain hlt | ⟨htrue, -⟩ := h.log.error problem.message l l
    · exact Or.inr hlt
    · cases htolerant.symm.trans htrue
  endOfFile h := Or.inl (Or.inr (h.log.errors_lt_record _ _))
  pull {s t} h := by
    obtain hpast | ⟨hitem, hahead⟩ := h.pull env
    · exact Or.inl hpast
    · refine Or.inr (Or.inl ?_)
      generalize s.pull env = r at hitem hahead
      generalize t.pull env = r' at hitem hahead
      obtain ⟨item, s⟩ := r
      obtain ⟨item', t⟩ := r'
      cases hitem with
      | blank => exact .blank hahead
      | token token tolerantAfter hl =>
        exact .token (.refl _ token) (.of_place _ hl token) hahead
      | malformed l l' =>
        refine .malformed ((hahead.log.error _ l l').imp Or.inr fun ⟨_, hlog⟩ => ?_)
        exact ⟨trivial, hahead.scanner, hahead.locals, hahead.literals, hlog⟩
      | ended => exact .ended hahead

theorem console_coupling_recovers (env : Environment) (errors : Nat) (tolerant : Bool) :
    (consoleCoupling env errors tolerant).Recovers :=
  ⟨id, fun _ => trivial⟩

theorem console_coupling_tolerates (env : Environment) (errors : Nat) :
    ∃ C', (consoleCoupling env errors false).Tolerates C' := by
  refine ⟨consoleCoupling env errors true, ?_, ?_, ?_, fun _ _ => trivial⟩
  · intro s t h
    exact ⟨h.scanner, h.locals, h.literals, h.log.tolerating true⟩
  · intro s t s' t' h h'
    refine ⟨h'.scanner, h'.locals, h'.literals, ?_⟩
    show Log.Level errors false { s'.log with downgrade := s.log.downgrade }
      { t'.log with downgrade := t.log.downgrade }
    rw [h.log.downgrade_left, h.log.downgrade_right]
    exact h'.log.tolerating false
  · intro s t s' _ h'
    exact h'

namespace Body

variable {errors : Nat} {p p' q : Body} {s s' t : Session} {tokens : List Token}

/-- A script answers `end` by ending, not by asking for more. -/
theorem ne_end_script_of_feed {token : Token} {location : Location} (hp : p.ends = true)
    (hfeed : runOn (fun _ => feed env token location) p s = ⟨.ok .more, q, t⟩) :
    token ≠ .keyword (.builtin .endScript) := by
  rintro rfl
  have hdone : runOn (fun _ => feed env (.keyword (.builtin .endScript)) location) p s =
      ⟨.ok .done, p, s⟩ := by
    rw [runOn, feed, Reading.run_get_bind, if_pos hp]
    rfl
  cases hdone.symm.trans hfeed

/-- On the console a body takes the tokens that it takes in a script. -/
theorem takes_console (htakes : Takes env (fun _ => feed env) p s tokens q t)
    (hp : Alike true false p p') (hs : s.Ahead errors false s') (ht : ¬t.IsPast errors) :
    ∃ q' t', Takes env (fun _ => feed env) p' s' tokens q' t' ∧ Alike true false q q' ∧
      t.Ahead errors false t' := by
  induction htakes generalizing p' s' with
  | nil p s => exact ⟨p', s', .nil p' s', hp, hs⟩
  | @pass p q s u t item tokens hpull hpass hrest ih =>
      have hboth := hs.pull env
      rcases hpull' : s'.pull env with ⟨item', u'⟩
      rw [hpull, hpull'] at hboth
      obtain hpast | ⟨hitem, hahead⟩ := hboth
      · exact absurd (hpast.of_precedes hrest.precedes) ht
      · obtain ⟨q', t', htakes, hq, ht'⟩ := ih hp hahead ht
        exact ⟨q', t', .pass hpull' (hitem.is_passed hpass) htakes, hq, ht'⟩
  | @take p q r s u v t token location tolerantAfter tokens hpull hend hcomment hfeed hrest ih =>
      have hboth := hs.pull env
      rcases hpull' : s'.pull env with ⟨item', u'⟩
      rw [hpull, hpull'] at hboth
      -- What comes behind the token: the answer of the reader, and then the other tokens.
      have hv : (v.restoreNames tolerantAfter).IsPast errors → False := fun hpast =>
        ht (hpast.of_precedes hrest.precedes)
      have hfed := (feed env token location).precedes_run p u (Nat.le_refl _)
      rw [show (feed env token location).run p u _ = _ from hfeed] at hfed
      obtain hpast | ⟨hitem, hahead⟩ := hboth
      · exact (hv ((hpast.of_precedes hfed).of_precedes (v.precedes_restore_names _))).elim
      · cases hitem with
        | @token _ _ _ location' hl =>
            have hends := feed_sim (console_coupling_recovers env errors false)
              (console_coupling_tolerates env errors) (Or.inr ⟨rfl, rfl⟩) (.refl _ token)
              (.of_place _ hl token)
              (fun h => absurd h (ne_end_script_of_feed hp.left hfeed)) p p' u u' (Nat.le_refl _)
              (Nat.le_refl _) hp hahead
            rw [show (feed env token location).run p u _ = _ from hfeed] at hends
            generalize hrun : (feed env token location').run p' u' (Nat.le_refl _) = answer at hends
            cases hends with
            | broken hpast => exact (hv (hpast.of_precedes (v.precedes_restore_names _))).elim
            | ok hverdict hq hrel =>
                cases hverdict
                obtain ⟨q', t', htakes, hr, ht'⟩ :=
                  ih hq (rel_restore_names (C := (consoleCoupling env errors false).toCoupling)
                    hrel _) ht
                exact ⟨q', t', .take hpull' hend hcomment hrun htakes, hr, ht'⟩

end Body

/-! ### The lines around a body -/

theorem Scanner.deliver_word_builtin {s : Scanner} {registry : Registry} {name : String}
    {l : Location} {word : Builtin} (h : Builtin.ofSpelling? (Text.toLower name) = some word)
    (hword : word ≠ .messageBox) :
    s.deliverWord registry name l = s.deliver (.keyword (.builtin word)) l := by
  have hkeyword : registry.keyword? (Text.toLower name) = some (.builtin word) := by
    rw [Registry.keyword?, h]
  have hne : Keyword.builtin word ≠ .builtin .messageBox := by
    rintro ⟨⟩
    exact hword rfl
  unfold deliverWord
  rw [hkeyword]
  dsimp only
  rw [if_neg hne]

/-- A word that is not of the language is a name or a keyword of the host. -/
theorem Scanner.exists_deliver_word {s : Scanner} {registry : Registry} {name : String}
    {l : Location} (h : Builtin.ofSpelling? (Text.toLower name) = none) :
    ∃ token, (token = .name name ∨ ∃ word, token = .keyword word) ∧
      s.deliverWord registry name l = s.deliver token l := by
  unfold deliverWord
  cases hkeyword : registry.keyword? (Text.toLower name) with
  | none => exact ⟨_, Or.inl rfl, rfl⟩
  | some keyword =>
      refine ⟨_, Or.inr ⟨keyword, rfl⟩, ?_⟩
      have hne : keyword ≠ .builtin .messageBox := by
        rintro rfl
        rw [Registry.keyword?, h] at hkeyword
        obtain ⟨code, -, hcode⟩ := Option.map_eq_some_iff.1 hkeyword
        cases hcode
      dsimp only
      rw [if_neg hne]

namespace ScriptFile

variable {text : List Char} {log : Log} {r : Result ScriptFile Unit}

/-- The first line of a script with the name `x`. -/
def heading : List Char := ['b', 'e', 'g', 'i', 'n', ' ', 'x', '\n']

theorem pull_begin (registry : Registry) (text : List Char) :
    ({ rest := heading ++ text } : Scanner).pull registry =
      ⟨.token (.keyword (.builtin .beginScript))
        ⟨0, 5, String.ofList ['b', 'e', 'g', 'i', 'n']⟩ none,
        { rest := ' ' :: 'x' :: '\n' :: text, column := 5, modes := { ignoreSpecial := false },
          lineStart := false }, []⟩ := by
  have hspelling : Builtin.ofSpelling? (Text.toLower (String.ofList ['b', 'e', 'g', 'i', 'n'])) =
      some .beginScript := by
    decide +kernel
  have hrest : heading ++ text = 'b' :: (['e', 'g', 'i', 'n'] ++ ' ' :: 'x' :: '\n' :: text) := rfl
  rw [hrest, Scanner.pull_word rfl rfl (by decide) (by decide)
      (List.all_eq_true.1 (by decide)) rfl,
    Scanner.deliver_word_builtin hspelling (by decide)]
  rfl

/-- A scanner behind `begin`. -/
def behindBegin (column : Nat) (rest : List Char) : Scanner :=
  { rest, column, modes := { tolerantNames := true, ignoreSpecial := false }, lineStart := false }

/-- The name of the script may be a keyword of the host. -/
theorem exists_pull_name (registry : Registry) (text : List Char) :
    ∃ token, (token = .name (String.ofList ['x']) ∨ ∃ word, token = .keyword word) ∧
      (behindBegin 6 ('x' :: '\n' :: text)).pull registry =
        ⟨.token token ⟨0, 7, String.ofList ['x']⟩ none, behindBegin 7 ('\n' :: text), []⟩ := by
  have hspelling : Builtin.ofSpelling? (Text.toLower (String.ofList ['x'])) = none := by
    decide +kernel
  have hrest : (behindBegin 6 ('x' :: '\n' :: text)).rest = 'x' :: ([] ++ '\n' :: text) := rfl
  obtain ⟨token, htoken, hdeliver⟩ := Scanner.exists_deliver_word hspelling
  refine ⟨token, htoken, ?_⟩
  rw [Scanner.pull_word rfl hrest (by decide) (by decide) (by simp) rfl, hdeliver]
  obtain rfl | ⟨word, rfl⟩ := htoken <;> rfl

/-- The first line of a script, up to its end. -/
theorem scans_heading
    (h : Scans env mayEnd (fun _ => feed env)
      { stage := .beginComplete, name := String.ofList ['x'] }
      { scanner := behindBegin 7 ('\n' :: text), log } r) :
    Scans env mayEnd (fun _ => feed env) {} { scanner := { rest := heading ++ text }, log } r := by
  refine .more (Session.pull_of_quiet (pull_begin env.extensions text)) (by rintro ⟨⟩)
    (by rintro _ ⟨⟩) rfl ?_
  have hblank : (behindBegin 5 (' ' :: 'x' :: '\n' :: text)).pull env.extensions =
      ⟨.blank, behindBegin 6 ('x' :: '\n' :: text), []⟩ :=
    Scanner.pull_blank (by decide) rfl rfl
  refine .pass (Session.pull_of_quiet hblank) trivial ?_
  obtain ⟨token, htoken, hpull⟩ := exists_pull_name env.extensions text
  obtain rfl | ⟨word, rfl⟩ := htoken
  · exact .more (Session.pull_of_quiet hpull) (by rintro ⟨⟩) (by rintro _ ⟨⟩) rfl h
  · exact .more (Session.pull_of_quiet hpull) (by rintro ⟨⟩) (by rintro _ ⟨⟩) rfl h

end ScriptFile

/-- A session behind the first line of a script. -/
def Session.ofBody (source : String) (log : Log) : Session :=
  { scanner := { rest := (source ++ "\nend\n").toList, line := 1 }, log }

/-- All of the text is read as the body of a script: behind the tokens that the body takes, only
the last line is left. -/
def Body.IsWhole (env : Environment) (source : String) (log : Log) : Prop :=
  ∃ tokens body t, Takes env (fun _ => Body.feed env) { ends := true } (Session.ofBody source log)
    tokens body t ∧ t.scanner.rest = closingLine ∧ t.scanner.pending = none

/-- The body of a script ends at the last line. -/
theorem Body.exists_scans_closing (env : Environment) {q : Body} {t : Session}
    (hends : q.ends = true)
    (hrest : t.scanner.rest = closingLine) (hpending : t.scanner.pending = none) :
    ∃ scanner : Scanner, scanner.rest = ['\n'] ∧ scanner.pending = none ∧
      Scans env (!·.ends) (fun _ => feed env) q t ⟨.ok (), q, { t with scanner }⟩ := by
  have hspelling : Builtin.ofSpelling? (Text.toLower (String.ofList ['e', 'n', 'd'])) =
      some .endScript := by
    decide +kernel
  have hpull : t.scanner.pull env.extensions = _ := Scanner.pull_word hpending
    (show t.scanner.rest = 'e' :: (['n', 'd'] ++ '\n' :: []) from hrest) (by decide) (by decide)
    (List.all_eq_true.1 (by decide)) (Lexeme.continues_name_of_is_edge (by decide) _ _)
  rw [Scanner.deliver_word_builtin hspelling (by decide)] at hpull
  refine ⟨{ t.scanner with
      rest := ['\n'], column := t.scanner.column + 3, modes := t.scanner.modes.start .word,
      lineStart := false }, rfl, hpending,
    .last (Session.pull_of_quiet hpull) (by rintro ⟨⟩) (by rintro _ ⟨⟩) ?_⟩
  rw [runOn, feed, Reading.run_get_bind, if_pos hends]
  rfl

namespace ScriptFile

/-- A script whose body is read up to the last line. -/
theorem exists_scans_body (name : String) {source : String} {log : Log} {body : Body} {t : Session}
    (hrest : t.scanner.rest = ['\n']) (hpending : t.scanner.pending = none)
    (h : Scans env (!·.ends) (fun _ => Body.feed env) { ends := true } (.ofBody source log)
      ⟨.ok (), body, t⟩) :
    ∃ scanner : Scanner, Scans env mayEnd (fun _ => feed env) { stage := .beginComplete, name }
      { scanner := behindBegin 7 ('\n' :: (source ++ "\nend\n").toList), log }
      ⟨.ok (), { stage := .endName, name, code := body.code }, { t with scanner }⟩ := by
  have hfeed : runOn (fun _ => feed env (.special .newline) ⟨1, 0, "<newline>"⟩)
      { stage := .beginComplete, name } (.ofBody source log) =
        ⟨.ok .more, { stage := .endName, name, code := body.code }, t⟩ := by
    have hscan := (Body.scans_scan (Nat.le_refl (Session.ofBody source log).unread)).unique h
    have hwithin : (Reading.within ({ ends := true } : Body) (Body.scan env) :
        Reading (Session.ofBody source log).unread ScriptFile _).run
          { stage := .beginComplete, name } (.ofBody source log) (Nat.le_refl _) =
        ⟨.ok (.ok (), body), { stage := .beginComplete, name }, t⟩ := by
      simp only [Reading.within, hscan]
    have ht := (Body.scan env).unread_run_le { ends := true } (.ofBody source log) (Nat.le_refl _)
    rw [hscan] at ht
    show (readBody env).run { stage := .beginComplete, name } (.ofBody source log) _ = _
    rw [readBody, Reading.run_bind_of_ok hwithin ht]
    rfl
  refine ⟨_, .more (Session.pull_of_quiet (Scanner.pull_newline rfl rfl)) (by rintro ⟨⟩)
    (by rintro _ ⟨⟩) hfeed (.last (Session.pull_of_quiet (Scanner.pull_newline hpending hrest))
      (by rintro ⟨⟩) (by rintro _ ⟨⟩) rfl)⟩

end ScriptFile

/-- Whether a body ends at `end` does not change. -/
theorem Body.ends_of_takes {p q : Body} {s t : Session} {tokens : List Token}
    (h : Takes env (fun _ => feed env) p s tokens q t) : q.ends = p.ends := by
  induction h with
  | nil => rfl
  | pass _ _ _ ih => exact ih
  | @take p q r s s' t u token location tolerantAfter tokens _ _ _ hfeed _ ih =>
      have hends : (anyCoupling.coupling env).Ends (Alike p.ends p.ends)
          ((anyCoupling.coupling env).Agrees location location)
          (runOn (fun _ => feed env token location) p s')
          (runOn (fun _ => feed env token location) p s') :=
        feed_sim (any_coupling_recovers env) ⟨_, any_coupling_tolerates env⟩ (Or.inl rfl)
          (.refl _ token) (.of_place _ rfl token) (fun _ => rfl) p p s' s' _ _ ⟨rfl, rfl, rfl⟩
          ⟨rfl, rfl, rfl, trivial⟩
      rw [hfeed] at hends
      cases hends with
      | broken h => exact h.elim
      | ok _ hq _ => exact ih.trans hq.left

/-- What a script comes to whose body is all of the text. -/
theorem exists_run_on_script {source : String} {log : Log} {tokens : List Token} {body : Body}
    {t : Session}
    (htakes : Takes env (fun _ => Body.feed env) { ends := true } (.ofBody source log) tokens
      body t)
    (hrest : t.scanner.rest = closingLine) (hpending : t.scanner.pending = none) :
    ∃ scanner : Scanner, runOn (fun _ => ScriptFile.scan env) {}
      { scanner := Scanner.ofText ("begin x\n" ++ source ++ "\nend\n"), log } =
        ⟨.ok (), { stage := .endName, name := "x", code := body.code }, { t with scanner }⟩ := by
  have hends : body.ends = true := Body.ends_of_takes htakes
  obtain ⟨scanner, hnewline, hnone, hclosing⟩ :=
    Body.exists_scans_closing env hends hrest hpending
  obtain ⟨scanner', hscans⟩ := ScriptFile.exists_scans_body "x" (t := { t with scanner }) hnewline
    hnone (htakes.scans hclosing)
  have htext : ("begin x\n" ++ source ++ "\nend\n").toList =
      ScriptFile.heading ++ (source ++ "\nend\n").toList := by
    simp [ScriptFile.heading]
  refine ⟨scanner', (ScriptFile.scans_scan _).unique ?_⟩
  rw [Scanner.ofText, htext]
  exact ScriptFile.scans_heading hscans

theorem Session.ahead_start (source : String) {log : Log} (h : log.downgrade = false) :
    (Session.ofBody source log).Ahead log.errors false
      { scanner := Scanner.ofText (source ++ "\n"), log } where
  scanner := by
    have htext : (source ++ "\nend\n").toList = (source ++ "\n").toList ++ closingLine := by
      simp [closingLine]
    exact ⟨htext, by simp [Scanner.ofText], .none, rfl, rfl⟩
  locals := rfl
  literals := rfl
  log := ⟨rfl, rfl, rfl, rfl, h, h⟩

/-- The console compiles what a script may have as its body, and makes the same of it: if the script
is compiled without an error and its body is all of the text, then so is the text on the console,
with as many warnings, the same code, the same literals and the same local variables. -/
theorem compile_console_of_compile_script (env : Environment) (source : String) {log : Log}
    (h : log.downgrade = false) {program : Program}
    (hscript : (compileScript env ("begin x\n" ++ source ++ "\nend\n") log).outcome = .ok program)
    (herrors : (compileScript env ("begin x\n" ++ source ++ "\nend\n") log).log.errors = log.errors)
    (hwhole : Body.IsWhole env source log) :
    ∃ program', (compileConsole env source log {}).outcome = .ok program' ∧
      (compileConsole env source log {}).log.errors = log.errors ∧
      (compileConsole env source log {}).log.warnings =
        (compileScript env ("begin x\n" ++ source ++ "\nend\n") log).log.warnings ∧
      program'.code = program.code ∧ program'.literals = program.literals ∧
      program'.locals = program.locals := by
  obtain ⟨tokens, body, t, htakes, hrest, hpending⟩ := hwhole
  obtain ⟨scanner, hrun⟩ := exists_run_on_script htakes hrest hpending
  unfold compileScript at hscript herrors ⊢
  dsimp only at hscript herrors ⊢
  rw [hrun] at hscript herrors ⊢
  cases hscript
  -- The script has not come to its last line, and has counted no error.
  have hpast : ¬t.IsPast log.errors := by
    rintro (hlt | hlt)
    · rw [hrest] at hlt
      exact Nat.lt_irrefl _ hlt
    · exact Nat.lt_irrefl _ (herrors ▸ hlt)
  have hstart : Body.Alike true false { ends := true } { ends := false } := ⟨rfl, rfl, rfl⟩
  obtain ⟨body', t', htakes', hbody, hahead⟩ :=
    Body.takes_console htakes hstart (Session.ahead_start source h) hpast
  -- On the console nothing is left, and the text may end.
  have hnil : t'.scanner.rest = [] := by
    have hlines := hahead.scanner.rest
    rw [hrest] at hlines
    exact List.append_left_eq_self.1 hlines.symm
  have hnone : t'.scanner.pending = none := by
    have hwaiting := hahead.scanner.pending
    rw [hpending] at hwaiting
    generalize t'.scanner.pending = waiting at hwaiting
    cases hwaiting with
    | none => rfl
  have hended : t'.pull env = (.ended, t') := by
    simp [Session.pull, Scanner.pull, hnone, hnil]
  have hfinish : Reading.finish (!·.ends) body' t' = ⟨.ok (), body', t'⟩ := by
    rw [Reading.finish, hbody.right]
    rfl
  have hconsole : runOn (fun _ => Body.scan env) { ends := false }
      { scanner := Scanner.ofText (source ++ "\n"), log } = ⟨.ok (), body', t'⟩ :=
    (Body.scans_scan _).unique (htakes'.scans (hfinish ▸ .ended hended trivial))
  unfold compileConsole
  dsimp only
  rw [hconsole]
  exact ⟨_, rfl, hahead.log.errors_right, hahead.log.warnings, hbody.code, hahead.literals,
    hahead.locals⟩

/-! ### An example -/

namespace Reading

variable {σ : Type} {mayEnd : σ → Bool} {feed : (m : Nat) → Token → Location → Reading m σ Verdict}

/-- Where a reader is after some turns of a scan, as long as it wants more. -/
def afterTurns (env : Environment) (mayEnd : σ → Bool)
    (feed : (m : Nat) → Token → Location → Reading m σ Verdict) : Nat → σ → Session → σ × Session
  | 0, p, s => (p, s)
  | count + 1, p, s =>
    match turn env mayEnd (fun m (_ : m < s.unread) => feed m) p s s.unread_le_self with
    | .last _ => (p, s)
    | .again q t => afterTurns env mayEnd feed count q t

theorem exists_takes_of_turn {p q : σ} {s t : Session}
    (h : turn env mayEnd (fun m (_ : m < s.unread) => feed m) p s s.unread_le_self = .again q t) :
    ∃ tokens, Takes env feed p s tokens q t := by
  have hlt := s.unread_pull_lt env
  rcases hpull : s.pull env with ⟨item, s'⟩
  rw [hpull] at hlt
  cases item with
  | ended => cases (turn_of_ended hpull).symm.trans h
  | malformed location => cases (turn_of_malformed hpull).symm.trans h
  | blank =>
      cases (turn_of_blank hpull).symm.trans h
      exact ⟨[], .pass hpull trivial (.nil _ _)⟩
  | token token location tolerantAfter =>
      by_cases hend : token = .endOfText
      · subst hend
        cases (turn_of_end_of_text hpull).symm.trans h
      by_cases hcomment : ∃ text, token = .comment text
      · obtain ⟨text, rfl⟩ := hcomment
        cases (turn_of_comment hpull).symm.trans h
        exact ⟨[], .pass hpull trivial (.nil _ _)⟩
      replace hcomment : ∀ text, token ≠ .comment text := by simpa using hcomment
      rw [turn_of_token hpull hend hcomment (hlt (by rintro ⟨⟩)), Turn.of_answer_eq_again] at h
      obtain ⟨houtcome, rfl, rfl⟩ := h
      refine ⟨[token], .take hpull hend hcomment ?_ (.nil _ _)⟩
      show (feed s'.unread token location).run p s' _ = ⟨.ok .more, _, _⟩
      rw [← houtcome]

theorem exists_takes_after_turns (env : Environment) (mayEnd : σ → Bool)
    (feed : (m : Nat) → Token → Location → Reading m σ Verdict) (count : Nat) (p : σ)
    (s : Session) :
    ∃ tokens, Takes env feed p s tokens (afterTurns env mayEnd feed count p s).1
      (afterTurns env mayEnd feed count p s).2 := by
  induction count generalizing p s with
  | zero => exact ⟨[], .nil p s⟩
  | succ count ih =>
      unfold afterTurns
      split
      · exact ⟨[], .nil p s⟩
      next q t hturn =>
        obtain ⟨tokens, htakes⟩ := exists_takes_of_turn hturn
        obtain ⟨tokens', htakes'⟩ := ih q t
        exact ⟨tokens ++ tokens', htakes.trans htakes'⟩

end Reading

/-- A body with a declaration, a loop around a call, and a word that is out of place. -/
def harvestBody : String :=
  "short ripe\nwhile ripe\nplayer->additem \"berry\" ripe\nendwhile\nendif"

theorem harvest_is_whole : Body.IsWhole harvestEnvironment harvestBody {} := by
  let after := Reading.afterTurns harvestEnvironment (!·.ends)
    (fun _ => Body.feed harvestEnvironment) 4 { ends := true } (.ofBody harvestBody {})
  have hlast : after.2.scanner.rest = closingLine ∧ after.2.scanner.pending = none := by
    decide +kernel
  obtain ⟨tokens, htakes⟩ := Reading.exists_takes_after_turns harvestEnvironment (!·.ends)
    (fun _ => Body.feed harvestEnvironment) 4 { ends := true } (.ofBody harvestBody {})
  exact ⟨tokens, after.1, after.2, htakes, hlast⟩

theorem harvest_on_console :
    ∃ program program',
      (compileScript harvestEnvironment ("begin x\n" ++ harvestBody ++ "\nend\n") {}).outcome =
        .ok program ∧
      (compileConsole harvestEnvironment harvestBody {} {}).outcome = .ok program' ∧
      (compileConsole harvestEnvironment harvestBody {} {}).log.warnings = 1 ∧
      program.code.length = 11 ∧ program'.code = program.code := by
  have hscript : (compileScript harvestEnvironment
      ("begin x\n" ++ harvestBody ++ "\nend\n") {}).outcome.map (·.code.length) = .ok 11 ∧
      (compileScript harvestEnvironment
        ("begin x\n" ++ harvestBody ++ "\nend\n") {}).log.errors = 0 ∧
      (compileScript harvestEnvironment
        ("begin x\n" ++ harvestBody ++ "\nend\n") {}).log.warnings = 1 := by
    decide +kernel
  obtain ⟨hlength, herrors, hwarnings⟩ := hscript
  cases hprogram : (compileScript harvestEnvironment
      ("begin x\n" ++ harvestBody ++ "\nend\n") {}).outcome with
  | error reason =>
      rw [hprogram] at hlength
      cases hlength
  | ok program =>
      rw [hprogram] at hlength
      obtain ⟨program', houtcome, -, hsame, hcode, -⟩ := compile_console_of_compile_script
        harvestEnvironment harvestBody rfl hprogram herrors harvest_is_whole
      exact ⟨program, program', rfl, houtcome, hsame.trans hwarnings, Except.ok.inj hlength, hcode⟩

end QuestScript
