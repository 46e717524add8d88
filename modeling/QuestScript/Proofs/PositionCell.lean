import QuestScript.Proofs.Incomplete
import QuestScript.Proofs.Severity

/-!
# Calls of `PositionCell` with wrong arguments

The errors in the arguments of `PositionCell` count as warnings, and the line is dropped if the
arguments cannot be read. Not every error keeps them from being read: an expression that is missing
or not complete is reported and then counts as a number without code.

The main statement is `compile_of_comes_to_position`: a line with a call of `PositionCell` has code
only if its arguments can be read, and then they have no errors but incomplete expressions.
`travel_keeps_code` is a line with such an error that keeps its code.
-/

namespace QuestScript

open Coupling
open Reading (Admits MeetsOnly Offers Scans Turn Yields runOn)

variable {n : Nat} {env : Environment}

/-! ### Arguments with a log of their own -/

/-- The log is as new as far as its settings go, and its errors are about expressions that are not
complete. -/
structure Log.OnlyIncomplete (log : Log) : Prop where
  mode : log.mode = .normal
  downgrade : log.downgrade = false
  errors : ∀ entry ∈ log.entries, entry.severity = .error →
    ∃ problem : Problem, problem.isIncomplete = true ∧ entry.message = problem.message

namespace Log.OnlyIncomplete

variable {log : Log}

theorem new : ({} : Log).OnlyIncomplete :=
  ⟨rfl, rfl, by rintro _ ⟨⟩⟩

theorem record (h : log.OnlyIncomplete) (severity : Severity) (message : String)
    (place : Option Location)
    (herror : severity = .error →
      ∃ problem : Problem, problem.isIncomplete = true ∧ message = problem.message) :
    (log.record severity message place).OnlyIncomplete := by
  refine ⟨h.mode, h.downgrade, fun entry hmem hseverity => ?_⟩
  obtain hmem | hmem := List.mem_append.1 hmem
  · exact h.errors entry hmem hseverity
  · obtain rfl := List.mem_singleton.1 hmem
    exact herror hseverity

end Log.OnlyIncomplete

/-- Runs beside runs with any log. The log on the left is one of its own, and as long as the
readings go on its errors are about incomplete expressions. -/
def incompleteCoupling : LogCoupling where
  rel log _ := log.OnlyIncomplete
  lost _ _ := True
  broken _ := False
  stops _ := True
  reports problem := problem.isIncomplete = true
  reports_of_isIncomplete := id
  lost_of_rel _ := trivial
  stops_internal _ := trivial
  broken_of_precedes h _ := h
  warning {log log'} h message l := by
    refine Or.inr ?_
    rw [Log.warning, h.downgrade, h.mode]
    exact h.record .warning message _ nofun
  error {log log' problem} hreports h l := by
    refine Or.inr ?_
    rw [Log.error, h.downgrade]
    exact h.record .error problem.message _ fun _ => ⟨problem, hreports, rfl⟩
  fail _ _ _ := Or.inr ⟨trivial, trivial⟩
  lost_error _ _ _ := Or.inr trivial
  endOfFile _ := Or.inr ⟨trivial, trivial⟩

namespace Statement

variable {p q : Statement} {s u : Session} {code : Int} {instruction : Extension}
  {location : Location} {token : Token}

/-- What becomes of the arguments of an instruction if they are read with a new log. -/
def readApart (env : Environment) (code : Int) (instruction : Extension) (statement : Statement)
    (u : Session) : Result Statement (Nat × Code) :=
  runOn (fun _ => readArguments env instruction.arguments { ignored := some (.extension code) })
    statement { u with log := {} }

/-- How errors are taken does not matter for what becomes of the arguments. -/
theorem read_arguments_apart {outcome : Except Abort (Nat × Code)} {q' : Statement} {v : Session}
    {h : u.unread ≤ n}
    (hrun : (readArguments env instruction.arguments { ignored := some (.extension code) }).run q
      (u.downgrade true) h = ⟨outcome, q', v⟩) :
    outcome = (readApart env code instruction q u).outcome ∧ q' = q ∧
      ∀ found, outcome = .ok found →
        (readApart env code instruction q u).session.log.OnlyIncomplete := by
  let C := incompleteCoupling.coupling env
  have hends : C.Ends (fun _ q' => q' = q) Eq (readApart env code instruction q u)
      ((readArguments env instruction.arguments { ignored := some (.extension code) }).run q
        (u.downgrade true) h) :=
    ArgumentList.read_sim (Expression.scan_sim u.unread n) instruction.arguments
      { ignored := some (.extension code) } q q { u with log := {} } (u.downgrade true)
      (Nat.le_refl _) h rfl ⟨rfl, rfl, rfl, .new⟩
  rw [hrun] at hends
  generalize readApart env code instruction q u = r at hends ⊢
  cases hends with
  | broken hbroken => exact hbroken.elim
  | ok hvalue hreader hrel =>
      cases hvalue
      exact ⟨rfl, hreader, fun _ _ => hrel.log⟩
  | stopped _ hreader _ => exact ⟨rfl, hreader, nofun⟩

/-- The arguments of `PositionCell` are used if they can be read, and otherwise the line is passed
over. -/
theorem read_call_arguments_admits (hposition : isPositionCell location = true) (h : u.unread ≤ n) :
    Admits (fun _ => True) (fun found q' => q' = q ∧ ∀ arguments, found = some arguments →
        (readApart env code instruction q u).outcome = .ok arguments ∧
          (readApart env code instruction q u).session.log.OnlyIncomplete)
      ((readCallArguments env code instruction location : Reading n Statement _).run q u h) := by
  let arguments : Reading n Statement (Nat × Code) :=
    readArguments env instruction.arguments { ignored := some (.extension code) }
  rcases hrun : arguments.run q (u.downgrade true) h with ⟨outcome, q', v⟩
  obtain ⟨houtcome, rfl, hlog⟩ := read_arguments_apart hrun
  have hle := (Reading.attempt (Reading.downgraded arguments)).unread_run_le q' u h
  have hattempt := Reading.run_attempt_downgraded arguments q' u h
  rw [hrun] at hattempt
  rw [hattempt] at hle
  unfold readCallArguments
  dsimp only
  rw [if_pos hposition, Reading.run_bind_of_ok hattempt (hle.trans h)]
  cases outcome with
  | ok found =>
      refine ⟨rfl, fun arguments harguments => ?_⟩
      cases harguments
      exact ⟨houtcome.symm, hlog found rfl⟩
  | error reason =>
      cases reason with
      | source =>
          exact MeetsOnly.bind .skip_line (fun _ _ hreader => .pure ⟨hreader, nofun⟩) _ _
      | endOfFile | internal defect => trivial

/-- What a call of `PositionCell` makes of its statement. -/
structure Called (env : Environment) (code : Int) (instruction : Extension) (q : Statement)
    (u : Session) (r : Statement) : Prop where
  stage : r.stage = .complete
  apart : ∃ found pool, (readApart env code instruction q u).outcome = .ok found ∧
    r.code = q.code ++ found.2 ++ (instruction.call q.object found.1 pool).1.code
  log : (readApart env code instruction q u).session.log.OnlyIncomplete

theorem feed_call_admits (hposition : isPositionCell location = true) (h : s.unread ≤ n)
    (hinstruction : env.extensions.instruction? code = some instruction)
    (hdrop : runOn (fun _ => dropReference instruction location) p s = ⟨.ok (), q, u⟩) :
    Admits (fun _ => True)
      (MeetsOnly.Answers (fun _ => True) (Called env code instruction q u) (·.code = q.code))
      ((feedCall env code instruction location : Reading n Statement Verdict).run p s h) := by
  have hle := (dropReference (n := n) instruction location).unread_run_le p s h
  rw [run_drop_reference, hdrop] at hle
  replace hle := Nat.le_trans hle h
  have hcall : (feedCall env code instruction location : Reading n Statement Verdict).run p s h =
      _ :=
    Reading.run_bind_of_ok ((run_drop_reference h).trans hdrop) hle
  rw [hcall]
  refine MeetsOnly.admits_bind (read_call_arguments_admits hposition hle) fun found q' hfound => ?_
  obtain ⟨rfl, hfound⟩ := hfound
  cases found with
  | none => exact .pure rfl
  | some arguments =>
      obtain ⟨houtcome, hlog⟩ := hfound arguments rfl
      refine .modify (.get ?_)
      rw [emit_fragment_call_instruction hinstruction]
      refine .assoc (.with_literals fun pool => .assoc (.modify ?_))
      cases (instruction.call q'.object arguments.1 pool).1.toExcept with
      | error defect => exact .abort trivial
      | ok callCode => exact .modify (.pure ⟨rfl, ⟨arguments, pool, houtcome, rfl⟩, hlog⟩)

/-! ### What stands in front of a call and behind it -/

/-- A statement that wants more has no code before the stages at which there may be some. The log
does not matter for that, so that the statement can be read with a new one. -/
theorem code_fits_of_feed {t : Session} (hp : p.CodeFits) {h : s.unread ≤ n}
    (hfeed : (feed env token location).run p s h = ⟨.ok .more, q, t⟩) : q.CodeFits := by
  let C := anyCoupling.coupling env
  have hends : C.Ends (Alike C) (C.Agrees location location)
      (runOn (fun _ => feed env token location) p { s with log := {} })
      ((feed env token location : Reading n Statement Verdict).run p s h) :=
    feed_sim (any_coupling_recovers env) ⟨_, any_coupling_tolerates env⟩ (.refl _ token)
      (.of_place _ rfl token) p p _ s _ _ (.refl p) ⟨rfl, rfl, rfl, trivial⟩
  rw [hfeed] at hends
  rcases hrun : runOn (fun _ => feed env token location) p { s with log := {} } with
    ⟨outcome, q', t'⟩
  rw [hrun] at hends
  cases hends with
  | broken hbroken => exact hbroken.elim
  | ok hverdict halike _ =>
      cases hverdict
      have hnew : ({} : Log).IncompleteSince 0 false := ⟨rfl, rfl, Nat.le_refl _, by rintro _ ⟨⟩⟩
      have hfits : q'.CodeFits := ((feed_heeds token hp _ _ _ _ _ hnew hrun).resolve_right id).2
      obtain ⟨allowExpression, name, rfl, -⟩ := halike
      exact hfits

/-- Behind a complete statement nothing is taken but the end of the line. -/
theorem feed_of_complete (token : Token) (hp : p.stage = .complete) :
    Yields (feed env token location : Reading n Statement Verdict) p
      (MeetsOnly.Answers (fun _ => True) (· = p) (· = p)) := by
  cases token with
  | int | float | name =>
      refine .get ?_
      simp only [hp]
      exact .refuse
  | keyword word =>
      refine .get ?_
      simp only [hp]
      split
      · refine .get ?_
        simp only [hp]
        exact .refuse
      · exact .refuse
  | special sign =>
      refine .get ?_
      simp only [hp]
      cases sign with
      | opening => exact .warn (.pure rfl)
      | newline => exact .pure rfl
      | _ => exact .refuse
  | comment | endOfText => exact .refuse

/-- A complete statement stays as it is. -/
theorem scans_of_complete {r : Result Statement Unit} (hp : p.stage = .complete)
    (h : Scans env (fun _ => false) (fun _ => feed env) p s r) (hok : r.outcome = .ok ()) :
    r.reader = p := by
  have hscan : Yields (scan env : Reading s.unread Statement Unit) p
      fun _ q => q = p := by
    refine .scan (· = p) (fun _ _ token location q hq => ?_) nofun rfl
    rw [hq]
    exact feed_of_complete token hp
  have hadmits := hscan s (Nat.le_refl _)
  rw [show (scan env : Reading s.unread Statement Unit).run p s _ = r from
    (Reading.scans_scan_from (Nat.le_refl _)).unique h] at hadmits
  rw [Admits, hok] at hadmits
  exact hadmits

theorem drop_reference_code :
    Yields (dropReference instruction location : Reading n Statement Unit) p
      fun _ q => q.code = p.code := by
  refine .get ?_
  split
  · exact .warn (.modify (.pure rfl))
  · exact .pure rfl

/-- A line has code only if the statement on it was read up to its end. -/
theorem starting_of_compile {spot : Spot} {compiled : Bool} {emitted : Code}
    (hline : (spot.compileLine env).outcome = .ok (compiled, emitted)) (hemitted : emitted ≠ []) :
    (spot.read env).outcome = .ok () ∧ (spot.read env).reader.code = emitted := by
  let r := spot.read env
  have hread : Admits (fun _ => True) (fun _ q => r.outcome = .ok () ∧ q = r.reader) r := by
    unfold Admits
    split
    next houtcome => exact ⟨houtcome, rfl⟩
    next reason _ => exact reason.is_among_any
  have hcompile : Admits (fun _ => True)
      (fun line _ => line.2 ≠ [] → r.outcome = .ok () ∧ r.reader.code = line.2)
      (spot.compileLine env) := by
    rw [Spot.compileLine, runOn, compile, Reading.run_modify_bind]
    refine MeetsOnly.admits_bind (MeetsOnly.admits_recover_line _ hread)
      fun compiled q hq => .get ?_
    cases compiled with
    | true => exact .set (.pure fun _ => ⟨(hq rfl).1, by rw [(hq rfl).2]⟩)
    | false => exact .set (.pure fun hnil => absurd rfl hnil)
  rw [Admits, hline] at hcompile
  exact hcompile hemitted

end Statement

theorem Spot.Offered.code_fits {spot : Spot} {token : Token} {location : Location} {p : Statement}
    {s : Session} (h : spot.Offered env token location p s) : p.CodeFits := by
  cases h with
  | first => exact fun _ => rfl
  | later hfirst hoffers =>
      refine hoffers.keeps (fun _ => Statement.CodeFits) ?_ []
        (Statement.code_fits_of_feed (fun _ => rfl) hfirst)
      intro _ _ _ _ _ _ _ hp hfeed
      exact Statement.code_fits_of_feed hp hfeed

namespace Statement

/-- What a statement with a call of `PositionCell` has at the end of its line: no code, or that of
the call. -/
theorem reader_of_comes_to_position {spot : Spot} {code : Int} {instruction : Extension}
    {q : Statement} {u : Session} (h : spot.ComesToPosition env code instruction q u)
    (hok : (spot.read env).outcome = .ok ()) :
    (spot.read env).reader.code = q.code ∨
      Called env code instruction q u (spot.read env).reader := by
  obtain @⟨location, p, q, s, u, hoffered, hstage, hinstruction, hposition, hdrop⟩ := h
  have hanswer (n : Nat) (h : s.unread ≤ n) : Admits (fun _ => True)
      (MeetsOnly.Answers (fun _ => True) (Called env code instruction q u) (·.code = q.code))
      ((feed env (.keyword (.extension code)) location : Reading n Statement Verdict).run
        p s h) := by
    rw [run_feed_instruction hstage hinstruction]
    exact feed_call_admits hposition h hinstruction hdrop
  -- The call completes the statement, so that nothing behind it changes the code.
  have hrest : ∀ {p' t r}, Called env code instruction q u p' →
      Scans env (fun _ => false) (fun _ => feed env) p' t r → r.outcome = .ok () →
      r.reader.code = q.code ∨ Called env code instruction q u r.reader := by
    intro p' t r hcalled hscans hok
    rw [scans_of_complete hcalled.stage hscans hok]
    exact Or.inr hcalled
  generalize Token.keyword (.extension code) = token at hoffered hanswer
  cases hoffered with
  | first =>
      replace hanswer := hanswer _ (spot.session.unread_started_le spot.token)
      rcases hrun : spot.feedFirst env with ⟨outcome, p', t⟩
      rw [show (feed env spot.token spot.location).run _ _ _ = _ from hrun] at hanswer
      cases outcome with
      | error reason =>
          rw [Spot.read_of_error hrun] at hok
          cases hok
      | ok verdict =>
          obtain ⟨hle, hread⟩ := Spot.read_of_ok hrun
          rw [hread] at hok ⊢
          cases verdict with
          | more => exact hrest hanswer (Reading.scans_scan_from hle) hok
          | done | handBack back => exact Or.inl hanswer
          | giveUp back reason => cases hok
  | @later p' _ t _ _ _ _ hfirst hoffers =>
      replace hanswer := hanswer _ (Nat.le_refl _)
      obtain ⟨hle, hread⟩ := Spot.read_of_ok hfirst
      have hscans : Scans env (fun _ => false) (fun _ => feed env) p' t (spot.read env) := by
        rw [hread]
        exact Reading.scans_scan_from hle
      generalize spot.read env = r at hok hscans ⊢
      obtain ⟨tolerantAfter, hlast | ⟨p'', t'', hfeed, hscans⟩⟩ := hscans.of_offers hoffers
      · have hkeeps := MeetsOnly.of_answer_keeps hanswer location tolerantAfter
        rw [show (feed env token location).run p s _ = runOn (fun _ => feed env token location) p s
          from rfl, hlast] at hkeeps
        replace hkeeps : Admits (fun _ => True) (fun _ r => r.code = q.code) r := hkeeps
        rw [Admits, hok] at hkeeps
        exact Or.inl hkeeps
      · rw [show (feed env token location).run p s _ = _ from hfeed] at hanswer
        exact hrest hanswer hscans hok

/-- A call of `PositionCell` is the first of its line that has code. -/
theorem code_of_comes_to_position {spot : Spot} {code : Int} {instruction : Extension}
    {q : Statement} {u : Session} (h : spot.ComesToPosition env code instruction q u) :
    q.code = [] := by
  obtain @⟨location, p, q, s, u, hoffered, hstage, hinstruction, hposition, hdrop⟩ := h
  have hcode : Admits (fun _ => True) (fun _ q => q.code = p.code)
      (runOn (fun _ => dropReference instruction location) p s) :=
    drop_reference_code s (Nat.le_refl _)
  rw [hdrop] at hcode
  rw [show q.code = p.code from hcode]
  refine hoffered.code_fits ?_
  obtain hstage | hstage := hstage <;> rw [hstage] <;> rfl

end Statement

/-- If a line with a call of `PositionCell` has code, its arguments could be read, they have no
errors but incomplete expressions, and the code is that of the arguments and the call. So a line
whose arguments have any other error is dropped. -/
theorem compile_of_comes_to_position {spot : Spot} {code : Int} {instruction : Extension}
    {statement : Statement} {u : Session}
    (h : spot.ComesToPosition env code instruction statement u) {compiled : Bool} {emitted : Code}
    (hline : (runOn (fun _ => Statement.compile env (some (spot.token, spot.location)))
      { allowExpression := spot.allowExpression } spot.session).outcome = .ok (compiled, emitted))
    (hemitted : emitted ≠ []) :
    ∃ arguments pool,
      (Statement.readApart env code instruction statement u).outcome = .ok arguments ∧
      (∀ entry ∈ (Statement.readApart env code instruction statement u).session.log.entries,
        entry.severity = .error →
          ∃ problem : Problem, problem.isIncomplete = true ∧ entry.message = problem.message) ∧
      emitted = arguments.2 ++ (instruction.call statement.object arguments.1 pool).1.code := by
  obtain ⟨hok, rfl⟩ := Statement.starting_of_compile hline hemitted
  have hnil := Statement.code_of_comes_to_position h
  obtain hcode | hcalled := Statement.reader_of_comes_to_position h hok
  · exact absurd (hcode.trans hnil) hemitted
  · obtain ⟨arguments, pool, houtcome, hcode⟩ := hcalled.apart
    rw [hnil, List.nil_append] at hcode
    exact ⟨arguments, pool, houtcome, hcalled.log.errors, hcode⟩

/-- A call of `PositionCell` whose fourth argument is missing. -/
def travelSpot : Spot where
  allowExpression := false
  token := .keyword (.extension (-1))
  location := { literal := "PositionCell" }
  session := { scanner := Scanner.ofText " 1 2 3 , , \"Balmora\"\n" }

theorem travel_spot_comes_to_position :
    travelSpot.ComesToPosition travelEnvironment (-1) positionCell {} travelSpot.session :=
  .call .first (Or.inl rfl) (by decide) (by decide +kernel) rfl

theorem travel_called :
    ∃ emitted, (runOn (fun _ => Statement.compile travelEnvironment
        (some (travelSpot.token, travelSpot.location))) {} travelSpot.session).outcome =
          .ok (true, emitted) ∧
      ∃ arguments pool,
        (Statement.readApart travelEnvironment (-1) positionCell {} travelSpot.session).outcome =
            .ok arguments ∧
        emitted = arguments.2 ++ (positionCell.call "" arguments.1 pool).1.code := by
  have hline : (runOn (fun _ => Statement.compile travelEnvironment
      (some (travelSpot.token, travelSpot.location))) {} travelSpot.session).outcome =
        .ok (true, [0, 0xc8000003, 2, 0xc8000004, 0xc8000003, 1, 0xc8000004, 0xc8000003, 0,
          0xc8000004, 0xc8000003, 0xca000198]) := by
    decide +kernel
  obtain ⟨arguments, pool, hread, -, hcode⟩ :=
    compile_of_comes_to_position travel_spot_comes_to_position hline (by simp)
  exact ⟨_, hline, arguments, pool, hread, hcode⟩

/-- An expression that is missing is an error, and yet the line keeps its code. -/
theorem travel_keeps_code :
    travelSpot.ComesToPosition travelEnvironment (-1) positionCell {} travelSpot.session ∧
      (Statement.readApart travelEnvironment (-1) positionCell {}
          travelSpot.session).session.log.entries.map
            (fun entry => (entry.severity, entry.message)) =
        [(.error, "Missing expression")] ∧
      (runOn (fun _ => Statement.compile travelEnvironment
          (some (travelSpot.token, travelSpot.location))) {}
          travelSpot.session).outcome.toOption.any (fun line => line.2 ≠ []) = true :=
  ⟨travel_spot_comes_to_position, by decide +kernel⟩

end QuestScript
