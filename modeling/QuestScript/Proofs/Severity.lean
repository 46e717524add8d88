import QuestScript.Proofs.Buttons
import QuestScript.Proofs.Logging

/-!
# How serious warnings are taken

Under a log that takes warnings for errors, warnings become errors, except where the arguments of
`PositionCell` are read. This module finds the places in a run where that happens: a statement that
the run reads (`ScriptFile.Reads`, `Body.Reads`) comes to the call, and reads its arguments from one
session to another (`Spot.ReadsPosition`). An entry of such a log is a warning if and only if it was
made there.

The main statement is `compile_parallel`, which compares the compilations of one text with two logs.
-/

namespace QuestScript

open Coupling
open Reading (Offers runOn)

variable {n : Nat} {env : Environment}

/-! ### Runs in which errors are taken in one way -/

/-- The remark is one that is made while errors count as warnings, or while they do not. -/
def Remark.Fits (tolerant : Bool) : Remark → Prop
  | .warning .. | .error .. => tolerant = false
  | .tolerated .. => tolerant = true
  | .endOfFile => True

/-- Since it was as given the log has heard only remarks that fit its setting. -/
def Log.Steady (base log : Log) : Prop :=
  ∃ trace, log = base.after trace ∧ ∀ remark ∈ trace, remark.Fits base.downgrade

namespace Log.Steady

variable {base log : Log}

theorem refl (base : Log) : base.Steady base :=
  ⟨[], rfl, by rintro _ ⟨⟩⟩

theorem downgrade (h : base.Steady log) : log.downgrade = base.downgrade := by
  obtain ⟨trace, rfl, -⟩ := h
  exact (base.after_settings trace).2.2

theorem note (h : base.Steady log) {remark : Remark} (hfits : remark.Fits base.downgrade) :
    base.Steady (log.note remark) := by
  obtain ⟨trace, rfl, htrace⟩ := h
  refine ⟨trace ++ [remark], (base.after_concat trace remark).symm, fun remark' hmem => ?_⟩
  obtain hmem | hmem := List.mem_append.1 hmem
  · exact htrace remark' hmem
  · exact List.mem_singleton.1 hmem ▸ hfits

theorem warning (h : base.Steady log) (message : String) (l : Location) :
    base.Steady (log.warning message l) := by
  rw [Log.warning_eq_note, h.downgrade]
  refine h.note ?_
  split
  next htolerant => exact htolerant
  next htolerant => exact Bool.eq_false_iff.2 htolerant

theorem error (h : base.Steady log) (message : String) (l : Location) :
    base.Steady (log.error message l) := by
  rw [Log.error_eq_note, h.downgrade]
  refine h.note ?_
  split
  next htolerant => exact htolerant
  next htolerant => exact Bool.eq_false_iff.2 htolerant

theorem end_of_file (h : base.Steady log) : base.Steady log.endOfFile :=
  note h (by trivial : Remark.endOfFile.Fits base.downgrade)

end Log.Steady

/-- A run beside itself that changes nothing about how errors are taken. -/
def steadyCoupling (base : Log) : LogCoupling where
  rel log log' := log = log' ∧ base.Steady log
  lost log log' := log = log' ∧ base.Steady log
  broken _ := False
  stops _ := True
  reports _ := True
  reports_of_isIncomplete _ := trivial
  lost_of_rel := id
  stops_internal _ := trivial
  broken_of_precedes h _ := h
  warning h message l := Or.inr ⟨by rw [h.1], h.2.warning message l⟩
  error _ h l := Or.inr ⟨by rw [h.1], h.2.error _ l⟩
  fail h message l := Or.inr ⟨trivial, by rw [h.1], h.2.error message l⟩
  lost_error h message l := Or.inr ⟨by rw [h.1], h.2.error message l⟩
  endOfFile h := Or.inr ⟨trivial, by rw [h.1], h.2.end_of_file⟩

theorem steady_coupling_recovers (env : Environment) (base : Log) :
    ((steadyCoupling base).coupling env).Recovers :=
  LogCoupling.recovers _ env id fun _ => trivial

theorem steady_of_ends {base : Log} {σ α : Type} {ρ : σ → σ → Prop} {V : α → α → Prop}
    {r r' : Result σ α} (h : ((steadyCoupling base).coupling env).Ends ρ V r r') :
    base.Steady r.session.log := by
  cases h with
  | broken h => exact h.elim
  | ok _ _ h => exact h.log.2
  | stopped _ _ h => exact h.log.2

theorem session_eq_of_ends {base : Log} {σ α : Type} {ρ : σ → σ → Prop} {V : α → α → Prop}
    {r r' : Result σ α} (h : ((steadyCoupling base).coupling env).Ends ρ V r r') :
    r'.session = r.session := by
  have heq : ∀ {s t : Session}, s.SameBut (steadyCoupling base).rel t → t = s := by
    rintro ⟨scanner, log, locals, literals⟩ ⟨_, _, _, _⟩ ⟨hscanner, hlocals, hliterals, hlog, -⟩
    cases hscanner
    cases hlocals
    cases hliterals
    cases hlog
    rfl
  cases h with
  | broken h => exact h.elim
  | ok _ _ h => exact heq h
  | stopped _ _ h => exact heq h

/-- A session beside itself. -/
theorem steady_start (s : Session) : s.SameBut (steadyCoupling s.log).rel s :=
  ⟨rfl, rfl, rfl, rfl, .refl s.log⟩

/-! ### Where warnings come from -/

/-- Warnings are taken for errors. -/
structure Log.Earnest (log : Log) : Prop where
  mode : log.mode = .asErrors
  downgrade : log.downgrade = false

theorem Log.Earnest.later {log later : Log} (h : log.Earnest) (hprecedes : log.Precedes later) :
    later.Earnest :=
  ⟨hprecedes.mode.trans h.mode, hprecedes.downgrade.trans h.downgrade⟩

/-- The entry with this number was made between the two sessions. -/
def MadeWithin (windows : Session → Session → Prop) (i : Nat) : Prop :=
  ∃ u v, windows u v ∧ u.log.entries.length ≤ i ∧ i < v.log.entries.length

/-- If warnings are taken for errors in the first session, every warning that the log has in the
second one beyond the first was made within one of the windows. -/
def Session.Warns (windows : Session → Session → Prop) (s t : Session) : Prop :=
  s.log.Earnest → ∀ i entry, s.log.entries.length ≤ i → t.log.entries[i]? = some entry →
    entry.severity = .warning → MadeWithin windows i

namespace Session.Warns

variable {windows windows' : Session → Session → Prop} {s t u : Session}

theorem mono (h : s.Warns windows t) (himp : ∀ u v, windows u v → windows' u v) :
    s.Warns windows' t := by
  intro hearnest i entry hle hentry hwarning
  obtain ⟨u, v, hwindow, hrange⟩ := h hearnest i entry hle hentry hwarning
  exact ⟨u, v, himp u v hwindow, hrange⟩

theorem trans (h : s.Warns windows t) (h' : t.Warns windows u) (hst : s.log.Precedes t.log)
    (htu : t.log.Precedes u.log) : s.Warns windows u := by
  intro hearnest i entry hle hentry hwarning
  by_cases hlt : i < t.log.entries.length
  · refine h hearnest i entry hle ?_ hwarning
    rw [List.prefix_iff_getElem?.1 htu.entries i hlt] at hentry
    rw [List.getElem?_eq_getElem hlt, hentry]
  · exact h' (hearnest.later hst) i entry (Nat.le_of_not_lt hlt) hentry hwarning

theorem of_log (h : s.Warns windows t) (hlog : u.log = t.log) : s.Warns windows u := by
  intro hearnest i entry
  rw [hlog]
  exact h hearnest i entry

/-- Where nothing changes about how errors are taken, there are no new warnings. -/
theorem of_steady (h : s.log.Steady t.log) : s.Warns windows t := by
  intro hearnest i entry hle hentry hwarning
  obtain ⟨trace, hlog, htrace⟩ := h
  rw [hlog, Log.entries_after, List.getElem?_append_right hle] at hentry
  obtain ⟨remark, hmem, hremark⟩ := List.mem_filterMap.1 (List.mem_of_getElem? hentry)
  have hfits := htrace remark hmem
  rw [hearnest.downgrade] at hfits
  rw [Remark.diagnostic?, hearnest.mode] at hremark
  cases remark with
  | warning message location | error message location | endOfFile =>
      cases hremark
      cases hwarning
  | tolerated message location => cases hfits

end Session.Warns

namespace Reading

variable {σ τ α β : Type} {windows : Session → Session → Prop}

/-- In this state and session the action makes its warnings within the windows. -/
def WarnsAt (windows : Session → Session → Prop) (x : Reading n σ α) (p : σ) (s : Session)
    (h : s.unread ≤ n) : Prop :=
  s.Warns windows (x.run p s h).session

namespace WarnsAt

variable {x : Reading n σ α} {f : α → Reading n σ β} {p : σ} {s : Session} {h : s.unread ≤ n}

/-- An action that changes nothing about how errors are taken. -/
theorem plain (env : Environment) {ρ : σ → σ → Prop} {V : α → α → Prop} (hp : ρ p p)
    (hx : ((steadyCoupling s.log).coupling env).Sim ρ V x x) : WarnsAt windows x p s h :=
  .of_steady (steady_of_ends (hx p p s s h h hp (steady_start s)))

/-- A reading that answers a token at the given place. -/
theorem answer {x : Reading n σ Verdict} (env : Environment) (location : Location)
    {ρ : σ → σ → Prop} (hp : ρ p p)
    (hx : ((steadyCoupling s.log).coupling env).Sim ρ
      (((steadyCoupling s.log).coupling env).Agrees location location) x x) :
    WarnsAt windows x p s h :=
  .plain env hp hx

protected theorem bind (hx : WarnsAt windows x p s h)
    (hf : ∀ a q t ht, x.run p s h = ⟨.ok a, q, t⟩ → WarnsAt windows (f a) q t ht) :
    WarnsAt windows (x >>= f) p s h := by
  have hprecedes := x.precedes_run p s h
  unfold WarnsAt at hx ⊢
  rcases hrun : x.run p s h with ⟨outcome, q, t⟩
  rw [hrun] at hx hprecedes
  cases outcome with
  | error reason =>
      rw [run_bind_of_error hrun]
      exact hx
  | ok a =>
      have ht : t.unread ≤ n := Nat.le_trans hprecedes.unread h
      rw [run_bind_of_ok hrun ht]
      exact hx.trans (hf a q t ht hrun) hprecedes.log ((f a).precedes_run q t ht).log

theorem within {y : Reading n τ α} {reader : τ} {k : Except Abort α × τ → Reading n σ β}
    (hy : WarnsAt windows y reader s h)
    (hk : ∀ outcome q t ht, y.run reader s h = ⟨outcome, q, t⟩ →
      WarnsAt windows (k (outcome, q)) p t ht) :
    WarnsAt windows (Reading.within reader y >>= k) p s h := by
  rcases hrun : y.run reader s h with ⟨outcome, q, t⟩
  have hwithin : (Reading.within reader y : Reading n σ _).run p s h =
      ⟨.ok (outcome, q), p, t⟩ := by
    simp only [Reading.within, hrun]
  rw [WarnsAt, hrun] at hy
  refine .bind ?_ fun a q' t' ht hwithin' => ?_
  · rw [WarnsAt, hwithin]
    exact hy
  · cases hwithin.symm.trans hwithin'
    exact hk outcome q t ht hrun

theorem nested {y : Reading n τ α} {reader : τ} {k : α × τ → Reading n σ β}
    (hy : WarnsAt windows y reader s h)
    (hk : ∀ a q t ht, y.run reader s h = ⟨.ok a, q, t⟩ → WarnsAt windows (k (a, q)) p t ht) :
    WarnsAt windows (Reading.nested reader y >>= k) p s h := by
  rw [WarnsAt, Reading.nested, run_bind_assoc]
  refine within hy fun outcome q t ht hrun => ?_
  cases outcome with
  | error reason => exact .of_steady (.refl _)
  | ok a => exact hk a q t ht hrun

theorem recover_line {x : Reading n σ Unit} (hx : WarnsAt windows x p s h) :
    WarnsAt windows (Reading.recoverLine env x) p s h := by
  refine .bind hx fun outcome q t ht hrun => ?_
  cases outcome with
  | ok _ => exact .of_steady (.refl _)
  | error reason =>
      cases reason with
      | source =>
          exact .plain env (ρ := Eq) rfl (.seq .skip_line fun _ => .pure (V := Eq) rfl)
      | endOfFile => exact .of_steady (.refl _)
      | internal defect => exact .of_steady (.refl _)

end WarnsAt

theorem warns_pull (s : Session) : s.Warns windows (s.pull env).2 := by
  have hfold : ∀ (reports : List Report) (log : Log), s.log.Steady log →
      s.log.Steady (reports.foldl Log.enter log) := by
    intro reports
    induction reports with
    | nil => exact fun _ h => h
    | cons report reports ih =>
        intro log h
        refine ih _ ?_
        cases report with
        | warning problem l => exact h.warning _ _
        | error problem l => exact h.error _ _
  exact .of_steady (hfold _ _ (.refl _))

theorem warns_finish (mayEnd : σ → Bool) (p : σ) (s : Session) :
    s.Warns windows (finish mayEnd p s).session := by
  refine .of_steady ?_
  unfold finish
  split
  · exact .refl _
  · exact (Log.Steady.refl _).end_of_file

/-- To get the next token makes none of the warnings. -/
theorem warns_of_pull {s s' t : Session} {item : Item} (hpull : s.pull env = (item, s'))
    (h : s'.Warns windows t) (hlog : s'.log.Precedes t.log) :
    s.Warns windows t ∧ s.log.Precedes t.log := by
  have hprecedes := s.precedes_pull env
  have hpulled : s.Warns windows (s.pull env).2 := warns_pull s
  rw [hpull] at hprecedes hpulled
  exact ⟨hpulled.trans h hprecedes.log hlog, hprecedes.log.trans hlog⟩

/-- A scan makes its warnings where its reader does. -/
theorem Scans.warns {mayEnd : σ → Bool}
    {feed : (m : Nat) → Token → Location → Reading m σ Verdict} {p : σ} {s : Session}
    {r : Result σ Unit} (h : Scans env mayEnd feed p s r)
    (hfeed : ∀ tokens token l q t, Offers env feed p s tokens token l q t →
      WarnsAt windows (feed t.unread token l) q t (Nat.le_refl _)) :
    s.Warns windows r.session := by
  induction h with
  | @ended p s s' item hpull hend =>
      exact (warns_of_pull hpull (warns_finish mayEnd p s') (precedes_finish mayEnd p s').log).1
  | @malformed p s s' l hpull =>
      exact (warns_of_pull hpull (.of_steady ((Log.Steady.refl _).error _ _))
        (Log.precedes_error _ _ _)).1
  | @pass p s s' item r hpull hpass hrest ih =>
      exact (warns_of_pull hpull (ih fun tokens token l q t hoffers =>
        hfeed tokens token l q t (hoffers.of_pass hpull hpass)) hrest.precedes_log).1
  | @last p s s' token l tolerantAfter r hpull hend hcomment hanswer =>
      have hhere : s'.Warns windows (runOn (fun m => feed m token l) p s').session :=
        hfeed [] token l p s' ⟨⟨s, tolerantAfter, .nil p s, hpull⟩, hend, hcomment⟩
      refine (warns_of_pull hpull hhere ?_).1.of_log (Turn.log_of_of_answer hanswer)
      exact ((feed s'.unread token l).precedes_run p s' _).log
  | @more p q s s' t token l tolerantAfter r hpull hend hcomment hrun hrest ih =>
      have hhere : s'.Warns windows (runOn (fun m => feed m token l) p s').session :=
        hfeed [] token l p s' ⟨⟨s, tolerantAfter, .nil p s, hpull⟩, hend, hcomment⟩
      have hlog := ((feed s'.unread token l).precedes_run p s' (Nat.le_refl _)).log
      rw [show (feed s'.unread token l).run p s' _ = _ from hrun] at hlog
      rw [hrun] at hhere
      obtain ⟨hwarns, hprecedes⟩ := warns_of_pull hpull hhere hlog
      have hrestore : (t.restoreNames tolerantAfter).log = t.log := by
        cases tolerantAfter <;> rfl
      refine (hwarns.of_log hrestore).trans (ih fun tokens token' l' q' u hoffers =>
        hfeed _ token' l' q' u (hoffers.of_take hpull hend hcomment hrun)) ?_ hrest.precedes_log
      rw [hrestore]
      exact hprecedes

end Reading

/-! ### The arguments of `PositionCell` -/

namespace Spot

/-- The statement that starts here is offered the token in this state; the session is the one
behind the token. -/
inductive Offered (env : Environment) (spot : Spot) :
    Token → Location → Statement → Session → Prop where
  | first : Offered env spot spot.token spot.location
      { allowExpression := spot.allowExpression } (spot.session.started spot.token)
  | later {q r : Statement} {t u : Session} {tokens : List Token} {token : Token}
      {location : Location}
      (hfirst : spot.feedFirst env = ⟨.ok .more, q, t⟩)
      (hoffers : Offers env (fun _ => Statement.feed env) q t tokens token location r u) :
      Offered env spot token location r u

/-- The statement that starts here comes to a call of `PositionCell`, the instruction with this
number, and is to read its arguments in this state and session. -/
inductive ComesToPosition (env : Environment) (spot : Spot) (code : Int) (instruction : Extension) :
    Statement → Session → Prop where
  | call {location : Location} {statement statement' : Statement} {t u : Session}
      (hoffered : spot.Offered env (.keyword (.extension code)) location statement t)
      (hstage : statement.stage = .begin ∨ statement.stage = .reference)
      (hinstruction : env.extensions.instruction? code = some instruction)
      (hposition : Statement.isPositionCell location = true)
      (hdrop : runOn (fun _ => Statement.dropReference instruction location) statement t =
        ⟨.ok (), statement', u⟩) :
      ComesToPosition env spot code instruction statement' u

/-- The statement that starts here comes to a call of `PositionCell`, and reads its arguments from
the one session to the other. -/
inductive ReadsPosition (env : Environment) (spot : Spot) : Session → Session → Prop where
  | call {code : Int} {instruction : Extension} {statement : Statement} {u : Session}
      (h : spot.ComesToPosition env code instruction statement u) :
      ReadsPosition env spot u (runOn (fun _ => Statement.readArguments env instruction.arguments
        { ignored := some (.extension code) }) statement (u.downgrade true)).session

end Spot

namespace Statement

open Reading (WarnsAt)

variable {p q : Statement} {s t : Session} {code : Int} {instruction : Extension}
  {location : Location} {windows : Session → Session → Prop}

/-- At the start of a statement, or behind an object, an instruction of the host is called. -/
theorem run_feed_instruction (hstage : p.stage = .begin ∨ p.stage = .reference)
    (hinstruction : env.extensions.instruction? code = some instruction) (h : s.unread ≤ n) :
    (feed env (.keyword (.extension code)) location : Reading n Statement Verdict).run p s h =
      (feedCall env code instruction location).run p s h := by
  have hfirst : (feed env (.keyword (.extension code)) location : Reading n Statement Verdict).run
      p s h = (feedOtherKeyword env (.extension code) location).run p s h := by
    obtain hstage | hstage := hstage
    all_goals
      simp only [feed, feedKeyword, Reading.run_get_bind, hstage]
      rfl
  have hfound : (feedExtension? env (.extension code) location : Reading n Statement _) =
      some <$> feedCall env code instruction location := by
    simp only [feedExtension?, hinstruction]
  have hle := (feedCall env code instruction location).unread_run_le p s h
  rw [hfirst, feedOtherKeyword, hfound]
  rcases hrun : (feedCall env code instruction location).run p s h with ⟨outcome, q, t⟩
  rw [hrun] at hle
  cases outcome with
  | error reason =>
      refine Reading.run_bind_of_error ?_
      rw [Reading.run_map, hrun]
      rfl
  | ok verdict =>
      refine Reading.run_bind_of_ok (a := some verdict) (q := q) (t := t) ?_ (Nat.le_trans hle h)
      rw [Reading.run_map, hrun]
      rfl

/-- What the arguments leave does not depend on the bound. -/
theorem session_read_arguments {signature : String} {manner : ArgumentList.Manner}
    (h : s.unread ≤ n) :
    ((readArguments env signature manner : Reading n Statement (Nat × Code)).run p s h).session =
      (runOn (fun _ => readArguments env signature manner) p s).session := by
  have hends := read_arguments_sim (C := (steadyCoupling s.log).coupling env) (m := s.unread)
    (ρ := Eq) signature manner p p s s h (Nat.le_refl _) rfl (steady_start s)
  exact (session_eq_of_ends hends).symm

theorem read_call_arguments_warns (hposition : isPositionCell location = true) (h : s.unread ≤ n)
    (hwindow : windows s (runOn (fun _ => readArguments env instruction.arguments
      { ignored := some (.extension code) }) p (s.downgrade true)).session) :
    WarnsAt windows (readCallArguments env code instruction location : Reading n Statement _)
      p s h := by
  unfold readCallArguments
  dsimp only
  rw [if_pos hposition]
  refine .bind ?_ fun outcome q t ht hrun => ?_
  · intro _ i entry hle hentry _
    refine ⟨_, _, hwindow, hle, ?_⟩
    rw [Reading.run_attempt_downgraded] at hentry
    rw [← session_read_arguments (show (s.downgrade true).unread ≤ n from h)]
    exact (List.getElem?_eq_some_iff.1 hentry).1
  · cases outcome with
    | ok found => exact .of_steady (.refl _)
    | error reason =>
        cases reason with
        | source => exact .plain env (ρ := Eq) rfl (.seq .skip_line fun _ => .pure (V := Eq) rfl)
        | endOfFile => exact .of_steady (.refl _)
        | internal defect => exact .of_steady (.refl _)

/-- An object is dropped whatever the bound. -/
theorem run_drop_reference (h : s.unread ≤ n) :
    (dropReference instruction location : Reading n Statement Unit).run p s h =
      runOn (fun _ => dropReference instruction location) p s := by
  rw [runOn, dropReference, dropReference, Reading.run_get_bind, Reading.run_get_bind]
  split <;> rfl

theorem feed_call_warns (hposition : isPositionCell location = true) (h : s.unread ≤ n)
    (hwindow : ∀ q t, runOn (fun _ => dropReference instruction location) p s = ⟨.ok (), q, t⟩ →
      windows t (runOn (fun _ => readArguments env instruction.arguments
        { ignored := some (.extension code) }) q (t.downgrade true)).session) :
    WarnsAt windows (feedCall env code instruction location : Reading n Statement Verdict)
      p s h := by
  refine .bind (.plain env (.refl p) (drop_reference_sim instruction rfl)) fun _ q t ht hdrop => ?_
  rw [run_drop_reference] at hdrop
  refine .bind (read_call_arguments_warns hposition ht (hwindow q t hdrop)) fun found r u hu _ => ?_
  cases found with
  | none => exact .of_steady (.refl _)
  | some found =>
      exact .answer env location (.refl r) (complete_call_sim code found.1 found.2)

variable {spot : Spot} {token : Token}

/-- A statement warns only about the arguments of `PositionCell`. -/
theorem feed_warns (hoffered : spot.Offered env token location p s) (h : s.unread ≤ n) :
    WarnsAt (spot.ReadsPosition env) (feed env token location : Reading n Statement Verdict)
      p s h := by
  by_cases hcall : (p.stage = .begin ∨ p.stage = .reference) ∧ CallsPosition env token location
  · obtain ⟨hstage, code, instruction, rfl, hinstruction, hposition⟩ := hcall
    rw [WarnsAt, run_feed_instruction hstage hinstruction]
    exact feed_call_warns hposition h fun q t hdrop =>
      .call (.call hoffered hstage hinstruction hposition hdrop)
  · let C := (steadyCoupling s.log).coupling env
    have hends : C.Ends (Alike C) (C.Agrees location location)
        ((feed env token location : Reading n Statement Verdict).run p s h)
        ((feed env token location : Reading n Statement Verdict).run p s h) :=
      feed_ends (steady_coupling_recovers env s.log) (.refl _ token) (.of_place _ rfl token)
        (.refl p)
        (steady_start s) fun hstage hcalls => absurd ⟨hstage, hcalls⟩ hcall
    exact .of_steady (steady_of_ends hends)

theorem compile_warns (spot : Spot) :
    WarnsAt (spot.ReadsPosition env) (compile env (some (spot.token, spot.location)))
      { allowExpression := spot.allowExpression } spot.session (Nat.le_refl _) := by
  refine .bind (.of_steady (.refl _)) fun _ q t ht hmodify => ?_
  cases hmodify
  refine .bind (.recover_line ?_) fun compiled q t ht _ => ?_
  · have hstarted : WarnsAt (spot.ReadsPosition env)
        (feed env spot.token spot.location >>= Reading.follow (scan env))
        { allowExpression := spot.allowExpression } (spot.session.started spot.token)
        (spot.session.unread_started_le spot.token) := by
      refine .bind (feed_warns .first _) fun verdict q t ht hfirst => ?_
      cases verdict with
      | more =>
          exact (Reading.scans_scan_from ht).warns fun tokens token l r u hoffers =>
            feed_warns (.later hfirst hoffers) (Nat.le_refl _)
      | done | handBack back => exact .of_steady (.refl _)
      | giveUp back reason => exact .of_steady (.refl _)
    rw [WarnsAt, Reading.run_starting rfl (spot.session.unread_started_le spot.token),
      Session.Warns, ← spot.session.log_started spot.token]
    exact hstarted
  · refine .bind (.of_steady (.refl _)) fun statement q t ht _ => ?_
    split
    · exact .bind (.of_steady (.refl _)) fun _ _ _ _ _ => .of_steady (.refl _)
    · exact .bind (.of_steady (.refl _)) fun _ _ _ _ _ => .of_steady (.refl _)

end Statement

/-- In one of these statements the arguments of `PositionCell` are read from the one session to the
other. -/
def PositionRead (env : Environment) (reads : Spot → Prop) (u v : Session) : Prop :=
  ∃ spot, reads spot ∧ spot.ReadsPosition env u v

/-! ### Blocks, bodies and script files -/

namespace Block

open Reading (WarnsAt)

variable {p q : Block} {s t : Session} {tokens : List Token} {token : Token} {location : Location}
  {windows : Session → Session → Prop}

theorem read_line_warns
    (hoffers : Offers env (fun m => feed env (scan env m)) p s tokens token location q t)
    (hline : q.stage.startsLine token = true) :
    WarnsAt (PositionRead env (Reads env p s)) (readLine env token location) q t
      (Nat.le_refl _) := by
  refine .nested ?_ fun _ _ _ _ _ => .bind (.of_steady (.refl _)) fun _ _ _ _ _ =>
    .of_steady (.refl _)
  exact (Statement.compile_warns ⟨false, token, location, t⟩).mono fun u v h =>
    ⟨_, .line hoffers hline, h⟩

theorem opening_warns {word : Builtin} {first : Option (Token × Location)} :
    WarnsAt windows (opening env word location first) p t (Nat.le_refl _) := by
  refine .plain env (ρ := Eq) rfl (opening_sim (steady_coupling_recovers env t.log) word rfl ?_)
  cases first with
  | none => exact .none
  | some first => exact .some ⟨.refl _ _, .of_place _ rfl _⟩

theorem open_warns {word : Builtin} {first : Option (Token × Location)}
    (hinner : ∀ inner u (h : u.unread ≤ t.unread),
      runOn (fun _ => opening env word location first) {} t = ⟨.ok (), inner, u⟩ →
      WarnsAt windows (scan env t.unread) inner u h) :
    WarnsAt windows (opening env word location first >>= fun _ => scan env t.unread) {} t
      (Nat.le_refl _) :=
  .bind opening_warns fun _ inner u h hopening => hinner inner u h hopening

section Nested

variable (hnested : ∀ inner u (h : u.unread ≤ t.unread),
  WarnsAt (PositionRead env (Reads env inner u)) (scan env t.unread) inner u h)

include hnested

theorem read_nested_warns {word : Builtin}
    (hoffers : Offers env (fun m => feed env (scan env m)) p s tokens (.keyword (.builtin word))
      location q t)
    (hbody : q.stage.isBody = true) (hword : word = .ifBlock ∨ word = .whileBlock) :
    WarnsAt (PositionRead env (Reads env p s)) (readNested env (scan env t.unread) word location)
      q t (Nat.le_refl _) := by
  refine .nested (open_warns fun inner u h hopening => ?_) fun _ _ _ _ _ =>
    .bind (.of_steady (.refl _)) fun _ _ _ _ _ => .of_steady (.refl _)
  refine (hnested inner u h).mono ?_
  rintro v w ⟨spot, hreads, hposition⟩
  exact ⟨spot, .nested hoffers hbody hword hopening hreads, hposition⟩

theorem feed_arm_keyword_warns {word : Keyword}
    (hoffers : Offers env (fun m => feed env (scan env m)) p s tokens (.keyword word) location q t)
    (hstage : q.stage = .ifBody ∨ q.stage = .elseBody) :
    WarnsAt (PositionRead env (Reads env p s))
      (feedArmKeyword env (scan env t.unread) word location) q t (Nat.le_refl _) := by
  have hbody : q.stage.isBody = true := by
    obtain hstage | hstage := hstage <;> rw [hstage] <;> rfl
  unfold feedArmKeyword
  split
  · exact .answer env location (ρ := Eq) rfl (.seq close_arm_sim fun _ => close_conditional_sim)
  · exact .plain env (ρ := Eq) rfl (.seq close_arm_sim fun _ =>
      .seq (read_condition_sim (steady_coupling_recovers env t.log) .none _ _) fun _ =>
        .pure (V := Eq) rfl)
  · exact .answer env location (ρ := Eq) rfl (.seq close_arm_sim fun _ => goto_sim _)
  · exact read_nested_warns hnested hoffers hbody (Or.inl rfl)
  · exact read_nested_warns hnested hoffers hbody (Or.inr rfl)
  · refine read_line_warns hoffers ?_
    obtain hstage | hstage := hstage
    all_goals
      rw [hstage]
      cases word with
      | extension code => rfl
      | builtin word => cases word <;> first | rfl | contradiction

theorem feed_loop_keyword_warns {word : Keyword}
    (hoffers : Offers env (fun m => feed env (scan env m)) p s tokens (.keyword word) location q t)
    (hstage : q.stage = .whileBody) :
    WarnsAt (PositionRead env (Reads env p s))
      (feedLoopKeyword env (scan env t.unread) word location) q t (Nat.le_refl _) := by
  have hbody : q.stage.isBody = true := by rw [hstage]; rfl
  unfold feedLoopKeyword
  split
  · exact .answer env location (ρ := Eq) rfl close_loop_sim
  · exact read_nested_warns hnested hoffers hbody (Or.inl rfl)
  · exact read_nested_warns hnested hoffers hbody (Or.inr rfl)
  · refine read_line_warns hoffers ?_
    rw [hstage]
    cases word with
    | extension code => rfl
    | builtin word => cases word <;> first | rfl | contradiction

theorem feed_keyword_warns {word : Keyword}
    (hoffers : Offers env (fun m => feed env (scan env m)) p s tokens (.keyword word)
      location q t) :
    WarnsAt (PositionRead env (Reads env p s))
      (feedKeyword env (scan env t.unread) word location) q t (Nat.le_refl _) := by
  have hopening : ∀ word, WarnsAt (PositionRead env (Reads env p s))
      (opening env word location none >>= fun _ => pure .more : Reading t.unread Block Verdict) q t
      (Nat.le_refl _) :=
    fun word => .bind opening_warns fun _ _ _ _ _ => .of_steady (.refl _)
  unfold feedKeyword
  rw [WarnsAt, Reading.run_get_bind]
  split
  · exact hopening _
  · exact hopening _
  · exact hopening _
  next hstage => exact feed_arm_keyword_warns hnested hoffers (Or.inl hstage)
  next hstage => exact feed_arm_keyword_warns hnested hoffers (Or.inr hstage)
  next hstage => exact feed_loop_keyword_warns hnested hoffers hstage
  · exact WarnsAt.answer env location (ρ := Eq) rfl (.seq (.warn _ rfl) fun _ => pass_else_junk_sim)
  · exact WarnsAt.plain env (ρ := Eq) rfl (.refuse (.refl _ _) (.of_place _ rfl _))

omit hnested in
theorem feed_other_warns
    (hoffers : Offers env (fun m => feed env (scan env m)) p s tokens token location q t)
    (hkeyword : ∀ word, token ≠ .keyword word) (hnewline : token ≠ .special .newline) :
    WarnsAt (PositionRead env (Reads env p s)) (feedOther env token location) q t
      (Nat.le_refl _) := by
  have hline : q.stage.isBody = true → q.stage.startsLine token = true := by
    intro hbody
    cases hstage : q.stage with
    | ifBody | elseBody | whileBody => unfold Stage.startsLine; split <;> simp_all
    | _ => rw [hstage] at hbody; cases hbody
  unfold feedOther
  rw [WarnsAt, Reading.run_get_bind]
  split
  next hstage => exact read_line_warns hoffers (hline (by rw [hstage]; rfl))
  next hstage => exact read_line_warns hoffers (hline (by rw [hstage]; rfl))
  next hstage => exact read_line_warns hoffers (hline (by rw [hstage]; rfl))
  · exact WarnsAt.answer env location (ρ := Eq) rfl (.seq (.warn _ rfl) fun _ => pass_else_junk_sim)
  · exact WarnsAt.answer env location (ρ := Eq) rfl pass_else_junk_sim
  · exact WarnsAt.plain env (ρ := Eq) rfl (.refuse (.refl _ _) (.of_place _ rfl _))

theorem feed_warns
    (hoffers : Offers env (fun m => feed env (scan env m)) p s tokens token location q t) :
    WarnsAt (PositionRead env (Reads env p s)) (feed env (scan env t.unread) token location) q t
      (Nat.le_refl _) := by
  unfold feed
  split
  · exact feed_keyword_warns hnested hoffers
  · exact .plain env (ρ := Eq) rfl (feed_newline_sim rfl)
  next hkeyword hnewline => exact feed_other_warns hoffers hkeyword hnewline

end Nested

/-- A block warns only about the arguments of `PositionCell`. -/
theorem scan_warns (p : Block) (s : Session) (h : s.unread ≤ n) :
    WarnsAt (PositionRead env (Reads env p s)) (scan env n) p s h := by
  induction hunread : s.unread using Nat.strongRecOn generalizing n p s with
  | ind unread ih =>
      subst hunread
      refine (scans_scan h).warns fun tokens token l q t hoffers =>
        feed_warns (fun inner u hle => ?_) hoffers
      exact ih u.unread (Nat.lt_of_le_of_lt hle hoffers.unread_lt) inner u hle rfl

end Block

namespace Body

open Reading (WarnsAt)

variable {p q : Body} {s t : Session} {tokens : List Token} {token : Token} {location : Location}

theorem read_line_warns (hoffers : Offers env (fun _ => feed env) p s tokens token location q t)
    (hline : startsLine q.ends token = true) :
    WarnsAt (PositionRead env (Reads env p s)) (readLine env token location) q t
      (Nat.le_refl _) := by
  unfold readLine
  rw [WarnsAt, Reading.run_get_bind]
  refine WarnsAt.nested ?_ fun _ _ _ _ _ => .bind (.of_steady (.refl _)) fun _ _ _ _ _ =>
    .of_steady (.refl _)
  exact (Statement.compile_warns ⟨!q.ends, token, location, t⟩).mono fun u v h =>
    ⟨_, .line hoffers hline, h⟩

theorem read_block_warns {word : Builtin} {first : Option (Token × Location)}
    (hoffers : Offers env (fun _ => feed env) p s tokens token location q t)
    (hblock : opensBlock? location token = some (word, first)) :
    WarnsAt (PositionRead env (Reads env p s)) (readBlock env word location first) q t
      (Nat.le_refl _) := by
  refine .nested (.recover_line (Block.open_warns fun inner u h hopening => ?_))
    fun read inner u hu _ => ?_
  · refine (Block.scan_warns inner u h).mono ?_
    rintro v w ⟨spot, hreads, hposition⟩
    exact ⟨spot, .block hoffers hblock hopening hreads, hposition⟩
  · dsimp only
    split
    · exact .bind (.of_steady (.refl _)) fun _ _ _ _ _ => .of_steady (.refl _)
    · exact .of_steady (.refl _)

theorem feed_warns (hoffers : Offers env (fun _ => feed env) p s tokens token location q t) :
    WarnsAt (PositionRead env (Reads env p s)) (feed env token location) q t (Nat.le_refl _) := by
  unfold feed
  split
  · exact read_block_warns hoffers rfl
  · exact read_block_warns hoffers rfl
  · exact read_block_warns hoffers rfl
  · exact .plain env (ρ := Eq) rfl (.seq (.warn _ rfl) fun _ => .seq .skip_line fun _ =>
      .pure (V := Eq) rfl)
  · rw [WarnsAt, Reading.run_get_bind]
    split
    · exact .of_steady (.refl _)
    next hends => exact read_line_warns hoffers (by simpa [startsLine] using hends)
  · exact .of_steady (.refl _)
  · exact read_block_warns hoffers rfl
  · refine read_line_warns hoffers ?_
    cases token with
    | keyword word =>
        cases word with
        | extension code => rfl
        | builtin word => cases word <;> first | rfl | contradiction
    | special sign => cases sign <;> first | rfl | contradiction
    | int | float | name | comment | endOfText => rfl

/-- A body warns only about the arguments of `PositionCell`. -/
theorem scan_warns (p : Body) (s : Session) (h : s.unread ≤ n) :
    WarnsAt (PositionRead env (Reads env p s)) (scan env : Reading n Body Unit) p s h :=
  (scans_scan h).warns fun _ _ _ _ _ hoffers => feed_warns hoffers

end Body

namespace ScriptFile

open Reading (WarnsAt)

variable {q : ScriptFile} {s t : Session} {tokens : List Token} {token : Token}
  {location : Location}

theorem feed_warns (hoffers : Offers env (fun _ => feed env) {} s tokens token location q t) :
    WarnsAt (PositionRead env (Reads env s)) (feed env token location) q t (Nat.le_refl _) := by
  unfold feed
  rw [WarnsAt, Reading.run_get_bind]
  split
  · exact .of_steady (.refl _)
  · refine WarnsAt.plain env (ρ := Eq) (V := Eq) rfl ?_
    dsimp only
    split
    · exact .seq (.warn _ rfl) fun _ => .pure rfl
    · exact .pure rfl
  · exact .of_steady (.refl _)
  · exact .of_steady (.refl _)
  · exact WarnsAt.plain env (ρ := Eq) rfl (.seq (.warn _ rfl) fun _ => .pure (V := Eq) rfl)
  next hstage =>
    refine WarnsAt.within ?_ fun outcome body u hu _ => ?_
    · refine (Body.scan_warns { ends := true } t (Nat.le_refl _)).mono ?_
      rintro u v ⟨spot, hreads, hposition⟩
      exact ⟨spot, .body hoffers hstage hreads, hposition⟩
    · cases outcome with
      | error reason => exact .of_steady (.refl _)
      | ok _ => exact .of_steady (.refl _)
  · exact WarnsAt.plain env (.refl _) (feed_end_name_sim rfl rfl)
  · exact WarnsAt.plain env (.refl _) (feed_end_name_sim rfl rfl)
  · exact .of_steady (.refl _)
  · exact .of_steady (.refl _)
  · exact WarnsAt.plain env (ρ := Eq) rfl (.refuse (.refl _ _) (.of_place _ rfl _))

/-- A script file warns only about the arguments of `PositionCell`. -/
theorem scan_warns (s : Session) (h : s.unread ≤ n) :
    WarnsAt (PositionRead env (Reads env s)) (scan env : Reading n ScriptFile Unit) {} s h :=
  (scans_scan h).warns fun _ _ _ _ _ hoffers => feed_warns hoffers

end ScriptFile

/-! ### What was found in the arguments stays in the log -/

namespace Reading

variable {σ τ α β : Type} {p : σ} {s : Session} {h : s.unread ≤ n}

theorem precedes_bind (x : Reading n σ α) (f : α → Reading n σ β) :
    (x.run p s h).session.Precedes ((x >>= f).run p s h).session := by
  have hle := x.unread_run_le p s h
  rcases hrun : x.run p s h with ⟨outcome, q, t⟩
  rw [hrun] at hle
  cases outcome with
  | error reason =>
      rw [run_bind_of_error hrun]
      exact .refl _
  | ok a =>
      rw [run_bind_of_ok hrun (Nat.le_trans hle h)]
      exact (f a).precedes_run q t _

theorem precedes_within (y : Reading n τ α) (reader : τ) (k : Except Abort α × τ → Reading n σ β) :
    (y.run reader s h).session.Precedes ((within reader y >>= k).run p s h).session :=
  precedes_bind (within reader y) k

theorem precedes_nested (y : Reading n τ α) (reader : τ) (k : α × τ → Reading n σ β) :
    (y.run reader s h).session.Precedes ((nested reader y >>= k).run p s h).session := by
  rw [Reading.nested, run_bind_assoc]
  exact precedes_within y reader _

theorem precedes_recover_line (x : Reading n σ Unit) :
    (x.run p s h).session.Precedes ((recoverLine env x).run p s h).session :=
  precedes_bind (attempt x) _

end Reading

namespace Statement

variable {spot : Spot} {token : Token} {location : Location} {p q : Statement} {s t u v : Session}
  {code : Int} {instruction : Extension}

theorem entries_feed_call (hposition : isPositionCell location = true) (h : s.unread ≤ n)
    (hdrop : runOn (fun _ => dropReference instruction location) p s = ⟨.ok (), q, t⟩) :
    (runOn (fun _ => readArguments env instruction.arguments
        { ignored := some (.extension code) }) q (t.downgrade true)).session.log.entries <+:
      ((feedCall env code instruction location : Reading n Statement Verdict).run
        p s h).session.log.entries := by
  have ht := (dropReference (n := n) instruction location).unread_run_le p s h
  rw [run_drop_reference, hdrop] at ht
  replace ht := Nat.le_trans ht h
  have hread : (runOn (fun _ => readArguments env instruction.arguments
        { ignored := some (.extension code) }) q (t.downgrade true)).session.log.entries <+:
      ((readCallArguments env code instruction location).run q t ht).session.log.entries := by
    rw [← session_read_arguments (show (t.downgrade true).unread ≤ n from ht)]
    unfold readCallArguments
    dsimp only
    rw [if_pos hposition]
    exact (Reading.precedes_bind (Reading.attempt (Reading.downgraded _)) _).log.entries
  have hcall : (feedCall env code instruction location : Reading n Statement Verdict).run p s h =
      _ :=
    Reading.run_bind_of_ok ((run_drop_reference h).trans hdrop) ht
  rw [hcall]
  exact hread.trans (Reading.precedes_bind _ _).log.entries

theorem precedes_compile (hoffered : spot.Offered env token location p s) :
    ∃ n, ∃ h : s.unread ≤ n,
      ((feed env token location : Reading n Statement Verdict).run p s h).session.log.Precedes
        (spot.compileLine env).session.log := by
  have hstarting : (spot.read env).session.Precedes (spot.compileLine env).session := by
    rw [Spot.read, Spot.compileLine, runOn, runOn, compile, Reading.run_modify_bind]
    exact (Reading.precedes_recover_line _).trans (Reading.precedes_bind _ _)
  cases hoffered with
  | first =>
      refine ⟨_, spot.session.unread_started_le spot.token, ?_⟩
      refine Log.Precedes.trans ?_ hstarting.log
      rw [Spot.read, runOn, Reading.run_starting rfl (spot.session.unread_started_le spot.token)]
      exact (Reading.precedes_bind (feed env spot.token spot.location) _).log
  | later hfirst hoffers =>
      obtain ⟨ht, hrest⟩ := Spot.read_of_ok hfirst
      rw [hrest] at hstarting
      exact ⟨_, Nat.le_refl _,
        (hoffers.precedes_log (Reading.scans_scan_from ht)).trans hstarting.log⟩

theorem entries_compile (h : spot.ReadsPosition env u v) :
    v.log.entries <+: (spot.compileLine env).session.log.entries := by
  obtain ⟨⟨hoffered, hstage, hinstruction, hposition, hdrop⟩⟩ := h
  obtain ⟨n, hs, hprecedes⟩ := precedes_compile hoffered
  rw [run_feed_instruction hstage hinstruction] at hprecedes
  exact (entries_feed_call hposition hs hdrop).trans hprecedes.entries

end Statement

namespace Block

variable {p q : Block} {s t u v : Session} {token : Token} {location : Location} {spot : Spot}

theorem Stage.is_body_of_starts_line {stage : Stage} (h : stage.startsLine token = true) :
    stage.isBody = true := by
  unfold startsLine at h
  split at h <;> first | rfl | cases h

theorem run_feed_line {nested : Reading n Block Unit} (h : t.unread ≤ n)
    (hline : q.stage.startsLine token = true) :
    (feed env nested token location).run q t h = (readLine env token location).run q t h := by
  have hbody := Stage.is_body_of_starts_line hline
  cases token with
  | keyword word =>
      show (feedKeyword env nested word location).run q t h = _
      unfold feedKeyword
      rw [Reading.run_get_bind]
      cases word with
      | extension code =>
          cases hstage : q.stage <;> rw [hstage] at hbody <;> first | rfl | cases hbody
      | builtin word =>
          cases hstage : q.stage <;> rw [hstage] at hline hbody <;> cases hbody
          all_goals cases word <;> first | rfl | cases hline
  | special sign =>
      cases sign with
      | newline => cases hstage : q.stage <;> rw [hstage] at hline <;> cases hline
      | _ =>
          show (feedOther env _ location).run q t h = _
          unfold feedOther
          rw [Reading.run_get_bind]
          cases hstage : q.stage <;> rw [hstage] at hbody <;> first | rfl | cases hbody
  | int | float | name | comment | endOfText =>
      show (feedOther env _ location).run q t h = _
      unfold feedOther
      rw [Reading.run_get_bind]
      cases hstage : q.stage <;> rw [hstage] at hbody <;> first | rfl | cases hbody

theorem run_feed_nested {nested : Reading n Block Unit} {word : Builtin} (h : t.unread ≤ n)
    (hbody : q.stage.isBody = true) (hword : word = .ifBlock ∨ word = .whileBlock) :
    (feed env nested (.keyword (.builtin word)) location).run q t h =
      (readNested env nested word location).run q t h := by
  show (feedKeyword env nested (.builtin word) location).run q t h = _
  unfold feedKeyword
  rw [Reading.run_get_bind]
  obtain rfl | rfl := hword
  all_goals
    cases hstage : q.stage <;> rw [hstage] at hbody <;> first | rfl | cases hbody

theorem Reads.entries (hreads : Reads env p s spot) (hposition : spot.ReadsPosition env u v)
    (h : s.unread ≤ n) : v.log.entries <+: ((scan env n).run p s h).session.log.entries := by
  induction hreads generalizing n with
  | @line p q s t tokens token location hoffers hline =>
      have hfeed := (hoffers.precedes_log (scans_scan h)).entries
      rw [runOn, run_feed_line _ hline] at hfeed
      exact (Statement.entries_compile hposition).trans
        ((Reading.precedes_nested _ _ _).log.entries.trans hfeed)
  | @nested p q inner s t u tokens word location spot hoffers hbody hword hopening hinner ih =>
      have hfeed := (hoffers.precedes_log (scans_scan h)).entries
      rw [runOn, run_feed_nested _ hbody hword] at hfeed
      have hu := (opening env word location none).unread_run_le {} t (Nat.le_refl _)
      rw [show (opening env word location none).run {} t _ = _ from hopening] at hu
      have hread : (opening env word location none >>= fun _ => scan env t.unread).run {} t
          (Nat.le_refl _) = (scan env t.unread).run inner u hu :=
        Reading.run_bind_of_ok hopening hu
      refine (ih hposition hu).trans (List.IsPrefix.trans ?_ hfeed)
      rw [← hread]
      exact (Reading.precedes_nested _ _ _).log.entries

end Block

namespace Body

variable {p q : Body} {s t u v : Session} {token : Token} {location : Location} {spot : Spot}

theorem run_feed_line (h : t.unread ≤ n) (hline : startsLine q.ends token = true) :
    (feed env token location).run q t h = (readLine env token location).run q t h := by
  cases token with
  | keyword word =>
      cases word with
      | extension code => rfl
      | builtin word =>
          cases word with
          | endScript =>
              rw [feed, Reading.run_get_bind, if_neg (by simpa [startsLine] using hline)]
          | _ => first | rfl | cases hline
  | special sign => cases sign <;> first | rfl | cases hline
  | int | float | name | comment | endOfText => rfl

theorem feed_block {word : Builtin} {first : Option (Token × Location)}
    (hblock : opensBlock? location token = some (word, first)) :
    (feed env token location : Reading n Body Verdict) = readBlock env word location first := by
  unfold opensBlock? at hblock
  split at hblock <;> first | cases hblock; rfl | cases hblock

theorem Reads.entries (hreads : Reads env p s spot) (hposition : spot.ReadsPosition env u v)
    (h : s.unread ≤ n) :
    v.log.entries <+: ((scan env : Reading n Body Unit).run p s h).session.log.entries := by
  cases hreads with
  | line hoffers hline =>
      have hfeed := (hoffers.precedes_log (scans_scan h)).entries
      rw [runOn, run_feed_line _ hline] at hfeed
      exact (Statement.entries_compile hposition).trans
        ((Reading.precedes_nested _ _ _).log.entries.trans hfeed)
  | @block q t u tokens token location word first inner _ hoffers hblock hopening hinner =>
      have hfeed := (hoffers.precedes_log (scans_scan h)).entries
      rw [runOn, feed_block hblock] at hfeed
      have hu := (Block.opening env word location first).unread_run_le {} t (Nat.le_refl _)
      rw [show (Block.opening env word location first).run {} t _ = _ from hopening] at hu
      have hread : (Block.opening env word location first >>= fun _ =>
          Block.scan env t.unread).run {} t (Nat.le_refl _) =
            (Block.scan env t.unread).run inner u hu :=
        Reading.run_bind_of_ok hopening hu
      refine (hinner.entries hposition hu).trans (List.IsPrefix.trans ?_ hfeed)
      rw [← hread]
      exact ((Reading.precedes_recover_line _).trans (Reading.precedes_nested _ _ _)).log.entries

end Body

namespace ScriptFile

variable {s u v : Session} {spot : Spot}

theorem Reads.entries (hreads : Reads env s spot) (hposition : spot.ReadsPosition env u v)
    (h : s.unread ≤ n) :
    v.log.entries <+: ((scan env : Reading n ScriptFile Unit).run {} s h).session.log.entries := by
  obtain ⟨hoffers, hstage, hbody⟩ := hreads
  have hfeed := (hoffers.precedes_log (scans_scan h)).entries
  rw [runOn, feed, Reading.run_get_bind, hstage] at hfeed
  exact (hbody.entries hposition (Nat.le_refl _)).trans
    ((Reading.precedes_within _ _ _).log.entries.trans hfeed)

end ScriptFile

/-- What is found in the arguments is recorded as a warning, unless the text ends there. -/
theorem Spot.ReadsPosition.severity {spot : Spot} {u v : Session} (h : spot.ReadsPosition env u v)
    {i : Nat} {entry : Diagnostic} (hle : u.log.entries.length ≤ i)
    (hentry : v.log.entries[i]? = some entry) :
    entry.severity = .warning ∨ entry.location = none := by
  obtain @⟨code, instruction, statement, u, -⟩ := h
  have hends := Statement.read_arguments_sim (ρ := Eq)
    (C := (steadyCoupling (u.downgrade true).log).coupling env)
    instruction.arguments { ignored := some (.extension code) } statement statement
    (u.downgrade true) (u.downgrade true) (Nat.le_refl _) (Nat.le_refl _)
    rfl (steady_start _)
  obtain ⟨trace, hlog, htrace⟩ := steady_of_ends hends
  replace hle : (u.downgrade true).log.entries.length ≤ i := hle
  rw [runOn, hlog, Log.entries_after, List.getElem?_append_right hle] at hentry
  obtain ⟨remark, hmem, hremark⟩ := List.mem_filterMap.1 (List.mem_of_getElem? hentry)
  obtain ⟨severity, hseverity, rfl⟩ := Option.map_eq_some_iff.1 hremark
  cases remark with
  | warning message l => cases htrace _ hmem
  | error message l => cases htrace _ hmem
  | endOfFile => exact Or.inr rfl
  | tolerated message l =>
      left
      revert hseverity
      cases (u.downgrade true).log.mode <;> rintro ⟨⟩ <;> rfl

theorem PositionRead.severity {reads : Spot → Prop} {entries : List Diagnostic} {i : Nat}
    {entry : Diagnostic} (h : MadeWithin (PositionRead env reads) i)
    (hkeeps : ∀ spot u v, reads spot → spot.ReadsPosition env u v → v.log.entries <+: entries)
    (hentry : entries[i]? = some entry) : entry.severity = .warning ∨ entry.location = none := by
  obtain ⟨u, v, ⟨spot, hreads, hposition⟩, hle, hlt⟩ := h
  refine hposition.severity hle ?_
  rw [List.getElem?_eq_getElem hlt, ← hentry]
  exact (List.prefix_iff_getElem?.1 (hkeeps spot u v hreads hposition) i hlt).symm

/-! ### Compilations with two logs -/

namespace Remark

/-- In a mode that ignores nothing every remark is recorded. -/
theorem filter_map_diagnostic? {mode : WarningsMode} (hmode : mode ≠ .ignore)
    (label : Option String)
    (trace : List Remark) :
    trace.filterMap (diagnostic? mode label) = trace.map fun remark =>
      ⟨(remark.severity? mode).getD .error, remark.message, remark.place, label⟩ := by
  rw [← List.filterMap_eq_map]
  refine List.filterMap_congr fun remark _ => ?_
  unfold diagnostic?
  cases mode with
  | ignore => exact absurd rfl hmode
  | normal | asErrors => cases remark <;> rfl

/-- A log that ignores warnings records the errors of one that does not. -/
theorem filter_map_diagnostic?_ignore (label label' : Option String) (trace : List Remark) :
    trace.filterMap (diagnostic? .ignore label') =
      ((trace.filterMap (diagnostic? .normal label)).filter (·.severity = .error)).map
        ({ · with label := label' }) := by
  induction trace with
  | nil => rfl
  | cons remark trace ih =>
      rw [List.filterMap_cons, List.filterMap_cons, ih]
      cases remark <;> rfl

theorem filter_map_diagnostic?_label (mode : WarningsMode) (label label' : Option String)
    (trace : List Remark) :
    trace.filterMap (diagnostic? mode label') =
      (trace.filterMap (diagnostic? mode label)).map ({ · with label := label' }) := by
  rw [List.map_filterMap]
  refine List.filterMap_congr fun remark _ => ?_
  rw [diagnostic?, diagnostic?, Option.map_map]
  rfl

end Remark

namespace Compilation

variable {α : Type} {log log' : Log} {c c' : Compilation α} {windows : Session → Session → Prop}

/-- What a compilation has added to the log that it was given. -/
def added (log : Log) (c : Compilation α) : List Diagnostic :=
  c.log.entries.drop log.entries.length

theorem added_of_after {trace : List Remark} (h : c.log = log.after trace) :
    c.added log = trace.filterMap (Remark.diagnostic? log.mode log.label) := by
  rw [added, h, Log.entries_after, List.drop_left]

/-- Compilations of one text with two logs: they come to the same, and what they add to the logs is
made of the same remarks. In the compilation on the right the arguments of `PositionCell` are read
within the windows. -/
structure Parallel (log log' : Log) (windows : Session → Session → Prop) (c c' : Compilation α) :
    Prop where
  outcome : c'.outcome = c.outcome
  locals : c'.locals = c.locals
  remarks : ∃ trace, c.log = log.after trace ∧ c'.log = log'.after trace
  same : log'.mode = log.mode →
    c'.added log' = (c.added log).map ({ · with label := log'.label })
  ignored : log.mode = .normal → log'.mode = .ignore →
    c'.added log' = ((c.added log).filter (·.severity = .error)).map
      ({ · with label := log'.label })
  promoted : log.mode = .normal → log'.mode = .asErrors →
    (c'.added log').length = (c.added log).length ∧
      ∀ i entry, (c.added log)[i]? = some entry → ∃ severity,
        (c'.added log')[i]? = some ⟨severity, entry.message, entry.location, log'.label⟩ ∧
          (severity = .warning ↔
            entry.severity = .warning ∧ MadeWithin windows (log'.entries.length + i))

theorem SameWith.parallel {trace : List Remark} (h : SameWith log log' c c' trace)
    (hwarns : log'.mode = .asErrors → ∀ i entry, log'.entries.length ≤ i →
      c'.log.entries[i]? = some entry → entry.severity = .warning → MadeWithin windows i)
    (hwithin : ∀ i entry, MadeWithin windows i → c'.log.entries[i]? = some entry →
      entry.severity = .warning ∨ entry.location = none) :
    c.Parallel log log' windows c' where
  outcome := h.outcome
  locals := h.locals
  remarks := ⟨trace, h.log_left, h.log_right⟩
  same hmode := by
    rw [added_of_after h.log_left, added_of_after h.log_right, hmode]
    exact Remark.filter_map_diagnostic?_label _ _ _ _
  ignored hnormal hignore := by
    rw [added_of_after h.log_left, added_of_after h.log_right, hnormal, hignore]
    exact Remark.filter_map_diagnostic?_ignore _ _ _
  promoted hnormal hearnest := by
    have hadded : ∀ i, (c'.added log')[i]? = c'.log.entries[log'.entries.length + i]? :=
      fun i => List.getElem?_drop
    have hright := added_of_after h.log_right
    rw [hearnest, Remark.filter_map_diagnostic? (by decide)] at hright
    rw [added_of_after h.log_left, hnormal, Remark.filter_map_diagnostic? (by decide)]
    refine ⟨by rw [hright, List.length_map, List.length_map], fun i entry hentry => ?_⟩
    obtain ⟨remark, hremark, rfl⟩ := List.getElem?_map.symm.trans hentry |> Option.map_eq_some_iff.1
    have hentry' : (c'.added log')[i]? = some ⟨(remark.severity? .asErrors).getD .error,
        remark.message, remark.place, log'.label⟩ := by
      rw [hright, List.getElem?_map, hremark]
      rfl
    refine ⟨_, hentry', fun hwarning => ⟨?_, ?_⟩, fun ⟨hwarning, hwindow⟩ => ?_⟩
    · -- Only a remark that was tolerated is a warning here.
      cases remark <;> first | rfl | cases hwarning
    · exact hwarns hearnest _ _ (Nat.le_add_right _ _) ((hadded i).symm.trans hentry') hwarning
    · obtain hseverity | hplace := hwithin _ _ hwindow ((hadded i).symm.trans hentry')
      · exact hseverity
      · cases remark with
        | endOfFile => cases hwarning
        | warning message l | error message l | tolerated message l => cases hplace

end Compilation

/-- No compilation looks at its log: whatever the logs are, it comes to the same and makes the same
remarks. A log that ignores warnings has the errors of a normal one, and a log that takes warnings
for errors has all that a normal one has, where the only warnings are those that were made while the
arguments of `PositionCell` were read. -/
theorem compile_parallel (env : Environment) (source : String) {log log' : Log}
    (h : log.downgrade = false) (h' : log'.downgrade = false) :
    (compileScript env source log).Parallel log log'
        (PositionRead env (ScriptFile.Reads env
          { scanner := Scanner.ofText source, log := log' }))
        (compileScript env source log') ∧
      (∀ locals, (compileConsole env source log locals).Parallel log log'
        (PositionRead env (Body.Reads env { ends := false }
          { scanner := Scanner.ofText (source ++ "\n"), log := log', locals }))
        (compileConsole env source log' locals)) ∧
      (scanLocals env source log).Parallel log log' (fun _ _ => False)
        (scanLocals env source log') := by
  have hremarks := remarks_coupling_recovers env log log' false
  have hdown := remarks_coupling_tolerates env log log'
  have hstart := same_remarks_start h h'
  refine ⟨?_, fun locals => ?_, ?_⟩
  · obtain ⟨trace, hsame⟩ := Compilation.exists_same_with h h'
      (LogCoupling.compiles_script hremarks hdown hstart source)
    refine hsame.parallel (fun hmode => ScriptFile.scan_warns
      { scanner := Scanner.ofText source, log := log' } (Nat.le_refl _) ⟨hmode, h'⟩)
      fun i entry hwindow hentry => PositionRead.severity hwindow ?_ hentry
    exact fun spot u v hreads hposition => hreads.entries hposition (Nat.le_refl _)
  · obtain ⟨trace, hsame⟩ := Compilation.exists_same_with h h'
      (LogCoupling.compiles_console hremarks hdown hstart source locals)
    refine hsame.parallel (fun hmode => Body.scan_warns { ends := false }
      { scanner := Scanner.ofText (source ++ "\n"), log := log', locals } (Nat.le_refl _)
      ⟨hmode, h'⟩) fun i entry hwindow hentry => PositionRead.severity hwindow ?_ hentry
    exact fun spot u v hreads hposition => hreads.entries hposition (Nat.le_refl _)
  · obtain ⟨trace, hsame⟩ := Compilation.exists_same_with h h'
      (LogCoupling.compiles_locals hremarks hstart source)
    refine hsame.parallel (fun hmode => ?_) fun i entry ⟨_, _, hwindow, _⟩ => hwindow.elim
    let s : Session := { scanner := Scanner.ofText source, log := log' }
    have hwarns : Reading.WarnsAt (fun _ _ => False) (Outline.scan env) () s (Nat.le_refl _) :=
      .plain env (ρ := Eq) rfl (Outline.scan_sim (steady_coupling_recovers env log'))
    exact hwarns ⟨hmode, h'⟩

/-- `PositionCell`: four numbers, the name of a place, and whatever else there is. -/
def positionCell : Extension :=
  ⟨none, "ffffcX", 0x2000198, some 0x2000199, .five⟩

/-- A host with `PositionCell`. -/
def travelEnvironment : Environment where
  ids := ["player"]
  extensions :=
    { nextCode := -2
      keywords := [("positioncell", -1)]
      instructions := [(-1, positionCell)] }

/-- A call of `PositionCell` with an argument missing, in a script that ends with another name. -/
def travelScript : String :=
  "begin travel\nplayer->PositionCell 1 2 3 , , \"Balmora\"\nend travels\n"

theorem travel_parallel :
    (compileScript travelEnvironment travelScript {}).log.entries.map (·.severity) =
        [.warning, .warning] ∧
      (compileScript travelEnvironment travelScript { mode := .asErrors }).log.entries.map
        (·.severity) = [.warning, .error] ∧
      MadeWithin (PositionRead travelEnvironment (ScriptFile.Reads travelEnvironment
        { scanner := Scanner.ofText travelScript, log := { mode := .asErrors } })) 0 ∧
      ¬MadeWithin (PositionRead travelEnvironment (ScriptFile.Reads travelEnvironment
        { scanner := Scanner.ofText travelScript, log := { mode := .asErrors } })) 1 := by
  have hnormal : (compileScript travelEnvironment travelScript {}).log.entries.map (·.severity) =
      [.warning, .warning] := by
    decide +kernel
  have hearnest : (compileScript travelEnvironment travelScript
      { mode := .asErrors }).log.entries.map (·.severity) = [.warning, .error] := by
    decide +kernel
  have hsettings : ({} : Log).downgrade = false ∧
      ({ mode := .asErrors } : Log).downgrade = false := by
    decide
  have hboth := ((compile_parallel travelEnvironment travelScript hsettings.1
    hsettings.2).1.promoted rfl rfl).2
  have hentry : ∀ i severity severity', [Severity.warning, Severity.warning][i]? = some severity →
      [Severity.warning, Severity.error][i]? = some severity' →
      (severity' = .warning ↔ severity = .warning ∧
        MadeWithin (PositionRead travelEnvironment (ScriptFile.Reads travelEnvironment
          { scanner := Scanner.ofText travelScript, log := { mode := .asErrors } })) i) := by
    intro i severity severity' hseverity hseverity'
    rw [← hnormal, List.getElem?_map] at hseverity
    rw [← hearnest, List.getElem?_map] at hseverity'
    obtain ⟨entry, hentry, rfl⟩ := Option.map_eq_some_iff.1 hseverity
    obtain ⟨entry', hentry', rfl⟩ := Option.map_eq_some_iff.1 hseverity'
    obtain ⟨severity, hpromoted, hiff⟩ := hboth i entry hentry
    cases hentry'.symm.trans hpromoted
    rwa [show ({ mode := .asErrors } : Log).entries.length + i = i from Nat.zero_add i] at hiff
  refine ⟨hnormal, hearnest, ((hentry 0 _ _ rfl rfl).1 rfl).2, fun hwithin => ?_⟩
  cases (hentry 1 _ _ rfl rfl).2 ⟨rfl, hwithin⟩

end QuestScript
