import QuestScript.Proofs.Defects
import QuestScript.Proofs.Logging

/-!
# Errors behind which a line keeps its code

Most errors make the reader give up a statement, and then its line has no code. An expression that
is missing or not complete is different: it is reported, counts as a number without code, and the
statement goes on.

`Reading.Heeds` says of an action that as long as it goes on there are no other errors, unless its
value says that the line is dropped. The main statement is `Statement.compile_errors_incomplete`: if
a line has code, its errors are about incomplete expressions. `bare_assignment_keeps_code` is a line
with such an error that keeps its code.
-/

namespace QuestScript

open Coupling
open Reading (MeetsOnly Turn Yields runOn)

variable {n : Nat} {env : Environment} {before : Nat}

/-! ### Logs -/

/-- Errors are tolerated or not, as given. The errors with a place behind the given number of
entries are about expressions that are not complete. -/
structure Log.IncompleteSince (before : Nat) (tolerant : Bool) (log : Log) : Prop where
  mode : log.mode = .normal
  downgrade : log.downgrade = tolerant
  length_le : before ≤ log.entries.length
  errors : ∀ entry ∈ log.entries.drop before, entry.severity = .error → entry.location ≠ none →
    ∃ problem : Problem, problem.isIncomplete = true ∧ entry.message = problem.message

namespace Log.IncompleteSince

variable {tolerant : Bool} {log : Log}

theorem record (h : log.IncompleteSince before tolerant) (severity : Severity) (message : String)
    (place : Option Location)
    (herror : severity = .error → place ≠ none →
      ∃ problem : Problem, problem.isIncomplete = true ∧ message = problem.message) :
    (log.record severity message place).IncompleteSince before tolerant := by
  refine ⟨h.mode, h.downgrade, ?_, fun entry hmem => ?_⟩
  · simp only [Log.record, List.length_append]
    have hle := h.length_le
    omega
  · simp only [Log.record, List.drop_append_of_le_length h.length_le] at hmem
    obtain hmem | hmem := List.mem_append.1 hmem
    · exact h.errors entry hmem
    · obtain rfl := List.mem_singleton.1 hmem
      exact herror

theorem warning (h : log.IncompleteSince before tolerant) (message : String)
    (location : Location) : (log.warning message location).IncompleteSince before tolerant := by
  rw [Log.warning, h.mode]
  exact h.record .warning message _ nofun

/-- An error that is tolerated is a warning. -/
theorem error (h : log.IncompleteSince before true) (message : String) (location : Location) :
    (log.error message location).IncompleteSince before true := by
  rw [Log.error, h.downgrade]
  exact h.warning message location

/-- That the text ended too early is an error without a place. -/
theorem end_of_file (h : log.IncompleteSince before tolerant) :
    log.endOfFile.IncompleteSince before tolerant :=
  h.record .error _ none fun _ hplace => absurd rfl hplace

end Log.IncompleteSince

/-- Runs beside themselves. As long as the readings go on, the errors are about incomplete
expressions; where errors are tolerated this holds behind any of them. -/
def incompleteSince (before : Nat) (tolerant : Bool) : LogCoupling where
  rel log log' := log' = log ∧ log.IncompleteSince before tolerant
  lost log log' := log' = log ∧ (tolerant = true → log.IncompleteSince before tolerant)
  broken _ := False
  stops _ := True
  reports problem := tolerant = true ∨ problem.isIncomplete = true
  reports_of_isIncomplete := Or.inr
  lost_of_rel h := ⟨h.1, fun _ => h.2⟩
  stops_internal _ := trivial
  broken_of_precedes h _ := h
  warning {log log'} h message l := Or.inr ⟨by rw [h.1], h.2.warning message l⟩
  error {log log' problem} hreports h l := by
    refine Or.inr ⟨by rw [h.1], ?_⟩
    cases tolerant with
    | true => exact h.2.error problem.message l
    | false =>
      have hincomplete : problem.isIncomplete = true := by simpa using hreports
      rw [Log.error, h.2.downgrade]
      exact h.2.record .error problem.message _ fun _ _ => ⟨problem, hincomplete, rfl⟩
  fail h message l := by
    refine Or.inr ⟨trivial, by rw [h.1], ?_⟩
    rintro rfl
    exact h.2.error message l
  lost_error h message l := by
    refine Or.inr ⟨by rw [h.1], ?_⟩
    rintro rfl
    exact (h.2 rfl).error message l
  endOfFile h := Or.inr ⟨trivial, by rw [h.1], fun _ => h.2.end_of_file⟩

/-- What is tolerated leaves the log as it should be. -/
theorem incomplete_since_tolerates (env : Environment) (before : Nat) :
    ((incompleteSince before false).coupling env).Tolerates
      ((incompleteSince before true).coupling env) := by
  refine LogCoupling.tolerates env ?_ ?_ ?_ id fun _ => id
  · rintro log _ ⟨rfl, h⟩
    exact ⟨h.downgrade, h.downgrade⟩
  · rintro log _ ⟨rfl, h⟩
    exact ⟨rfl, h.mode, rfl, h.length_le, h.errors⟩
  · rintro log _ ⟨rfl, h⟩
    obtain ⟨hmode, -, hle, herrors⟩ := h rfl
    exact ⟨rfl, hmode, rfl, hle, herrors⟩

/-- The scanner warns as long as it finds tokens. -/
theorem Log.IncompleteSince.pull {s s' : Session} {item : Item}
    (h : s.log.IncompleteSince before false) (hpull : s.pull env = (item, s'))
    (hitem : ∀ l, item ≠ .malformed l) : s'.log.IncompleteSince before false := by
  obtain hbroken | hpulls :=
    (incompleteSince before false).pull env (s := s) (t := s) ⟨rfl, rfl, rfl, rfl, h⟩
  · exact hbroken.elim
  · rw [hpull] at hpulls
    cases hpulls with
    | blank h | token _ _ h | comment h | ended h => exact h.log.2
    | malformed => exact absurd rfl (hitem _)

/-! ### Actions -/

namespace Reading

variable {σ τ α β γ : Type} {x : Reading n σ α} {f : α → Reading n σ β} {p q : σ}

/-- Wherever the action succeeds, the errors are about incomplete expressions if they have been so
before, and the value and the state of the reader are as described by `post`. Otherwise they are as
described by `dropped`. -/
def Heeds (before : Nat) (x : Reading n σ α) (p : σ) (post dropped : α → σ → Prop) : Prop :=
  ∀ (s : Session) h a q t, s.log.IncompleteSince before false → x.run p s h = ⟨.ok a, q, t⟩ →
    t.log.IncompleteSince before false ∧ post a q ∨ dropped a q

namespace Heeds

variable {post dropped : β → σ → Prop} {mid bad : α → σ → Prop}

/-! ### Rules for actions -/

/-- An action that a coupling of runs with themselves allows. -/
theorem of_sim {ρ : σ → σ → Prop} {V : α → α → Prop}
    (hsim : ((incompleteSince before false).coupling env).Sim ρ V x x) (hp : ρ p p)
    (hmeets : Yields x p mid) : Heeds before x p mid bad := by
  intro s h a q t hlog hrun
  have hends := hsim p p s s h h hp ⟨rfl, rfl, rfl, rfl, hlog⟩
  have hadmits := hmeets s h
  rw [hrun] at hends hadmits
  cases hends with
  | broken hbroken => exact hbroken.elim
  | ok _ _ hrel => exact Or.inl ⟨hrel.log.2, hadmits⟩

/-- An action that drops the line whatever its errors are. -/
theorem of_meets (hmeets : Yields x p bad) : Heeds before x p mid bad := by
  intro s h a q t _ hrun
  have hadmits := hmeets s h
  rw [hrun] at hadmits
  exact Or.inr hadmits

protected theorem pure {a : α} (h : mid a p) : Heeds before (pure a : Reading n σ α) p mid bad := by
  intro s hle a q t hlog hrun
  cases hrun
  exact Or.inl ⟨hlog, h⟩

protected theorem refuse {token : Token} {location : Location} {post dropped : Verdict → σ → Prop} :
    Heeds before (Reading.refuse token location : Reading n σ Verdict) p post dropped := by
  intro s h a q t _ hrun
  cases hrun

protected theorem bind (hx : Heeds before x p mid bad)
    (hf : ∀ a q, mid a q → Heeds before (f a) q post dropped)
    (hbad : ∀ a q, bad a q → Yields (f a) q dropped) :
    Heeds before (x >>= f) p post dropped := by
  intro s h b r u hlog hrun
  have hle := x.unread_run_le p s h
  rcases hx' : x.run p s h with ⟨outcome, q, t⟩
  rw [hx'] at hle
  cases outcome with
  | error reason =>
      rw [run_bind_of_error hx'] at hrun
      cases hrun
  | ok a =>
      rw [run_bind_of_ok hx' (hle.trans h)] at hrun
      obtain ⟨hlog, hmid⟩ | hdropped := hx s h a q t hlog hx'
      · exact hf a q hmid t _ b r u hlog hrun
      · have hadmits := hbad a q hdropped t (hle.trans h)
        rw [hrun] at hadmits
        exact Or.inr hadmits

/-- Goes on behind an action that does not drop the line. -/
theorem seq (hx : Heeds before x p mid fun _ _ => False)
    (hf : ∀ a q, mid a q → Heeds before (f a) q post dropped) :
    Heeds before (x >>= f) p post dropped :=
  hx.bind hf fun _ _ => False.elim

protected theorem map {f : α → β} (hx : Heeds before x p mid bad)
    (hpost : ∀ a q, mid a q → post (f a) q) (hdropped : ∀ a q, bad a q → dropped (f a) q) :
    Heeds before (f <$> x) p post dropped := by
  rw [map_eq_pure_bind]
  exact hx.bind (fun a q h => .pure (hpost a q h)) fun a q h => .pure (hdropped a q h)

variable {k : PUnit → Reading n σ β}

protected theorem get {f : σ → Reading n σ β} (h : Heeds before (f p) p post dropped) :
    Heeds before (get >>= f) p post dropped :=
  h

protected theorem set (h : Heeds before (k ⟨⟩) q post dropped) :
    Heeds before (set q >>= k) p post dropped :=
  h

protected theorem modify {change : σ → σ} (h : Heeds before (k ⟨⟩) (change p) post dropped) :
    Heeds before (modify change >>= k) p post dropped :=
  h

protected theorem look {view : Session → α} (h : ∀ a, Heeds before (f a) p post dropped) :
    Heeds before (Reading.look view >>= f) p post dropped :=
  fun s => h (view s) s

protected theorem warn {problem : Problem} {location : Location}
    (h : Heeds before (k ⟨⟩) p post dropped) :
    Heeds before (Reading.warn problem location >>= k) p post dropped :=
  fun s hle a q t hlog hrun => h { s with log := s.log.warning problem.message location } hle a q t
    (hlog.warning _ _) hrun

protected theorem modify_modes {change : Modes → Modes} (h : Heeds before (k ⟨⟩) p post dropped) :
    Heeds before (Reading.modifyModes change >>= k) p post dropped :=
  fun s hle a q t hlog hrun => h (s.mapModes change) hle a q t hlog hrun

protected theorem redeliver {token : Token} (h : Heeds before (k ⟨⟩) p post dropped) :
    Heeds before (Reading.redeliver token >>= k) p post dropped :=
  fun s hle a q t hlog hrun =>
    h (s.redeliver token) ((s.precedes_redeliver token).unread.trans hle) a q t hlog hrun

/-- Another reader. If it stops early, whatever follows has to drop the line. -/
protected theorem within {y : Reading n τ α} {reader : τ} {inner : α → τ → Prop}
    {k : Except Abort α × τ → Reading n σ β}
    (hy : Heeds before y reader inner fun _ _ => False)
    (hok : ∀ a q, inner a q → Heeds before (k (.ok a, q)) p post dropped)
    (herror : ∀ reason q, Yields (k (.error reason, q)) p dropped) :
    Heeds before (Reading.within reader y >>= k) p post dropped := by
  have hwithin : Heeds before (Reading.within reader y : Reading n σ _) p
      (fun offered q => q = p ∧ ∃ a, offered.1 = .ok a ∧ inner a offered.2)
      fun offered q => q = p ∧ ∃ reason, offered.1 = .error reason := by
    intro s h offered q t hlog hrun
    rcases hinner : y.run reader s h with ⟨outcome, r, u⟩
    simp only [Reading.within, hinner] at hrun
    cases hrun
    cases outcome with
    | ok a =>
        obtain ⟨hlog, hpost⟩ | hfalse := hy s h a r t hlog hinner
        · exact Or.inl ⟨hlog, rfl, a, rfl, hpost⟩
        · exact hfalse.elim
    | error reason => exact Or.inr ⟨rfl, reason, rfl⟩
  refine hwithin.bind ?_ ?_
  · rintro ⟨_, r⟩ q ⟨rfl, a, rfl, hpost⟩
    exact hok a r hpost
  · rintro ⟨_, r⟩ q ⟨rfl, reason, rfl⟩
    exact herror reason r

protected theorem nested {y : Reading n τ α} {reader : τ} {inner : α → τ → Prop}
    {k : α × τ → Reading n σ β} (hy : Heeds before y reader inner fun _ _ => False)
    (hk : ∀ a q, inner a q → Heeds before (k (a, q)) p post dropped) :
    Heeds before (Reading.nested reader y >>= k) p post dropped := by
  rw [Reading.nested, bind_assoc]
  exact .within hy (fun a q h => hk a q h) fun reason _ _ _ => reason.is_among_any

/-- An action that may stop early. If it does, whatever follows has to drop the line. -/
protected theorem attempt {k : Except Abort α → Reading n σ β} (hx : Heeds before x p mid bad)
    (hok : ∀ a q, mid a q → Heeds before (k (.ok a)) q post dropped)
    (hbad : ∀ a q, bad a q → Yields (k (.ok a)) q dropped)
    (herror : ∀ reason q, Yields (k (.error reason)) q dropped) :
    Heeds before (Reading.attempt x >>= k) p post dropped := by
  have hattempt : Heeds before (Reading.attempt x) p
      (fun outcome q => ∃ a, outcome = .ok a ∧ mid a q)
      fun outcome q => ∀ a, outcome = .ok a → bad a q := by
    intro s h outcome q t hlog hrun
    rcases hx' : x.run p s h with ⟨outcome', q', t'⟩
    rw [run_attempt hx'] at hrun
    cases hrun
    cases outcome with
    | error reason => exact Or.inr nofun
    | ok a =>
        refine (hx s h a q t hlog hx').imp (fun hpost => ⟨hpost.1, a, rfl, hpost.2⟩) ?_
        rintro hdropped _ ⟨⟩
        exact hdropped
  refine hattempt.bind ?_ fun outcome q hdropped => ?_
  · rintro _ q ⟨a, rfl, hmid⟩
    exact hok a q hmid
  · cases outcome with
    | ok a => exact hbad a q (hdropped a rfl)
    | error reason => exact herror reason q

/-- A line that is given up is dropped. -/
protected theorem recover_line {x : Reading n σ Unit} {done : σ → Prop}
    (hx : Heeds before x p (fun _ _ => True) fun _ q => done q) :
    Heeds before (Reading.recoverLine env x) p (fun _ _ => True)
      fun read q => read = true → done q := by
  refine .attempt hx (fun _ _ _ => .pure trivial) (fun _ _ hdone => .pure fun _ => hdone)
    fun reason q => ?_
  cases reason with
  | source => exact .after fun _ _ => .pure nofun
  | endOfFile | internal defect => exact .abort trivial

end Heeds

/-! ### Scans -/

namespace Heeds

/-- The answer to a token drops the line: the reader gives up, or it is done and its state is as
described. -/
def Drops (done : σ → Prop) : Verdict → σ → Prop
  | .done, q => done q
  | .giveUp _ _, _ => True
  | .more, _ | .handBack _, _ => False

variable {inv done : σ → Prop}

/-- The answers of a reader that keeps the invariant as long as it wants more. -/
abbrev Answers (inv : σ → Prop) : Verdict → σ → Prop :=
  MeetsOnly.Answers (fun _ => True) inv fun _ => True

/-- What a turn of a scan comes to: it goes on with the invariant and errors about incomplete
expressions, or the scan ends with such errors or drops the line. -/
def TurnHeeds (before : Nat) (inv done : σ → Prop) : Turn σ → Prop
  | .last r => r.outcome = .ok () → r.session.log.IncompleteSince before false ∨ done r.reader
  | .again q t => t.log.IncompleteSince before false ∧ inv q

theorem of_answer_heeds {x : Reading n σ Verdict} {s : Session} {h : s.unread ≤ n}
    (hx : Heeds before x p (Answers inv) (Drops done)) (hlog : s.log.IncompleteSince before false)
    (location : Location) (tolerantAfter : Option Bool) :
    TurnHeeds before inv done (.ofAnswer location tolerantAfter (x.run p s h)) := by
  rcases hrun : x.run p s h with ⟨outcome, q, t⟩
  have hrestore : (t.restoreNames tolerantAfter).log = t.log := by cases tolerantAfter <;> rfl
  cases outcome with
  | error reason => exact nofun
  | ok verdict =>
      have hanswer := hx s h verdict q t hlog hrun
      rw [← hrestore] at hanswer
      cases verdict with
      | more => exact hanswer.resolve_right id
      | done => exact fun _ => hanswer.imp_left And.left
      | handBack back => exact fun _ => Or.inl (hanswer.resolve_right id).1
      | giveUp back reason => exact nofun

variable {feed : (m : Nat) → m < n → Token → Location → Reading m σ Verdict}

theorem turn_heeds (env : Environment)
    (hfeed : ∀ m hm token location p, inv p →
      Heeds before (feed m hm token location) p (Answers inv) (Drops done))
    (hp : inv p) {s : Session} (hlog : s.log.IncompleteSince before false) (h : s.unread ≤ n) :
    TurnHeeds before inv done (turn env (fun _ => false) feed p s h) := by
  unfold turn
  split
  · rintro ⟨⟩
  next hpull => exact ⟨hlog.pull hpull (by rintro _ ⟨⟩), hp⟩
  · rintro ⟨⟩
  · rintro ⟨⟩
  next hpull => exact ⟨hlog.pull hpull (by rintro _ ⟨⟩), hp⟩
  next hpull => exact of_answer_heeds (hfeed _ _ _ _ p hp) (hlog.pull hpull (by rintro _ ⟨⟩)) _ _

/-- A scan whose reader heeds every token. -/
theorem scan
    (hfeed : ∀ m hm token location p, inv p →
      Heeds before (feed m hm token location) p (Answers inv) (Drops done))
    (hp : inv p) :
    Heeds before (Reading.scan env (fun _ => false) feed) p (fun _ _ => True)
      fun _ q => done q := by
  intro s h a r u hlog hrun
  change scanFrom env (fun _ => false) feed p s h = _ at hrun
  induction hunread : s.unread using Nat.strongRecOn generalizing p s with
  | ind unread ih =>
      have hturns := turn_heeds env hfeed hp hlog h
      cases hturn : turn env (fun _ => false) feed p s h with
      | last result =>
          rw [hturn] at hturns
          rw [scan_from_of_last hturn] at hrun
          subst hrun
          exact (hturns rfl).imp_left fun hlog => ⟨hlog, trivial⟩
      | again q t =>
          have hlt := unread_lt_of_turn hturn
          rw [hturn] at hturns
          rw [scan_from_of_again hturn (by omega)] at hrun
          exact ih t.unread (hunread ▸ hlt) hturns.2 t (by omega) hturns.1 hrun rfl

protected theorem starting {feed : Token → Location → Reading n σ Verdict}
    {scan : Reading n σ Unit} {first : Option (Token × Location)}
    (hfeed : ∀ token location, Heeds before (feed token location) p (Answers inv) (Drops done))
    (hscan : ∀ q, inv q → Heeds before scan q (fun _ _ => True) fun _ q => done q) (hp : inv p) :
    Heeds before (Reading.starting feed scan first) p (fun _ _ => True) fun _ q => done q := by
  cases first with
  | none => exact hscan p hp
  | some offered =>
      obtain ⟨token, location⟩ := offered
      suffices hfollow : Heeds before (feed token location >>= follow scan) p (fun _ _ => True)
          fun _ q => done q by
        rw [starting_some]
        split
        · exact hfollow
        · exact .redeliver hfollow
      refine .bind (hfeed token location) (fun verdict q hq => ?_) fun verdict q hq => ?_
      · cases verdict with
        | more => exact hscan q hq
        | done | handBack back => exact .pure trivial
        | giveUp back reason =>
            intro s h a r t hlog hrun
            cases hrun
      · cases verdict with
        | more | handBack back => exact hq.elim
        | done => exact .pure hq
        | giveUp back reason => exact .abort reason.is_among_any

end Heeds

end Reading

/-! ### Statements -/

open Reading (Heeds)
open Reading.Heeds (Answers Drops)

namespace Statement

variable {p q : Statement} {location : Location} {token : Token}

/-- At these stages there may be code. -/
def Stage.hasCode : Stage → Bool
  | .button | .buttonComma | .complete => true
  | _ => false

/-- There is no code before the stages at which there may be some. -/
def CodeFits (statement : Statement) : Prop :=
  statement.stage.hasCode = false → statement.code = []

/-- The statement, if it wants more, has no code unless there may be some. -/
abbrev Fits : Verdict → Statement → Prop :=
  Answers CodeFits

/-- The statement ends without code. -/
abbrev Emptied : Verdict → Statement → Prop :=
  Drops (·.code = [])

/-- The same for a token that may be of no use; then there is no code yet. -/
def FitsIfAny : Option Verdict → Statement → Prop
  | some verdict, q => Fits verdict q
  | none, q => q.code = []

def EmptiedIfAny : Option Verdict → Statement → Prop
  | some verdict, q => Emptied verdict q
  | none, _ => False

/-- The token in hand is answered the same way whether incomplete lines are errors or not. -/
abbrev HeedsToken (n before : Nat) (x : Reading n Statement Verdict) (p : Statement) : Prop :=
  Heeds before x p Fits Emptied

theorem some_heeds {x : Reading n Statement Verdict} (hx : Heeds before x p Fits Emptied) :
    Heeds before (some <$> x) p FitsIfAny EmptiedIfAny :=
  hx.map (fun _ _ h => h) fun _ _ h => h

theorem goto_heeds {stage : Stage} {dropped : Verdict → Statement → Prop}
    (h : stage.hasCode = true ∨ p.code = []) :
    Heeds before (goto stage : Reading n Statement Verdict) p Fits dropped := by
  refine .modify (.pure fun hstage => ?_)
  obtain h | h := h
  · exact absurd (h.symm.trans hstage) nofun
  · exact h

/-- A stage at which there may be code. -/
theorem goto_fits {stage : Stage} (h : stage.hasCode = true) :
    Yields (goto stage : Reading n Statement Verdict) p Fits :=
  .modify (.pure fun hstage => absurd (h.symm.trans hstage) nofun)

theorem pass_unknown_heeds (hp : p.code = []) :
    HeedsToken n before (passUnknown env location) p :=
  .of_meets (.report (.bind .skip_line fun _ _ hq => .pure (hq ▸ hp)))

theorem feed_target_heeds (name : String) (hp : p.code = []) :
    HeedsToken n before (feedTarget env name) p := by
  refine .look fun locals => .modify ?_
  split
  · exact goto_heeds (Or.inr hp)
  split <;> exact goto_heeds (Or.inr hp)

theorem feed_member?_heeds (name : String) (hp : p.code = []) :
    Heeds before (feedMember? env name : Reading n Statement (Option Verdict)) p FitsIfAny
      fun _ _ => False := by
  refine .get ?_
  split
  · exact .modify (.map (goto_heeds (Or.inr hp)) (fun _ _ h => h) fun _ _ => id)
  · exact .pure hp

theorem feed_message_heeds (text : String) :
    HeedsToken n before (feedMessage env text) p := by
  let C := (incompleteSince before false).coupling env
  refine .of_sim (V := C.Agrees {} {}) (feed_message_sim rfl) (.refl p) ?_
  unfold feedMessage
  dsimp only
  split
  · exact .after fun _ _ => goto_fits rfl
  · exact .after fun _ _ => .after fun _ _ => .after fun _ _ => goto_fits rfl

theorem feed_button_heeds (env : Environment) (text : String) :
    HeedsToken n before (feedButton text) p := by
  let C := (incompleteSince before false).coupling env
  exact .of_sim (V := C.Agrees {} {}) (feed_button_sim rfl) (.refl p)
    (.after fun _ _ => .after fun _ _ => goto_fits rfl)

/-- An expression that cannot start with the object is given up. Behind its start it may not be
complete. -/
theorem read_shown_heeds (first : Option Token) :
    HeedsToken n before (readShown env first location) p := by
  let C := (incompleteSince before false).coupling env
  have hplace : location = location := rfl
  have hstarting := read_started_sim (n := n) (m := n) (C := C)
    (show Option.Rel (fun a b => a.Alike .same b ∧ C.At a location location) first first by
      cases first with
      | none => exact .none
      | some token => exact .some ⟨.refl _ token, .of_place _ hplace token⟩)
  have hshow : ∀ found : ValueType × Code, Heeds before
      (do
        emit found.2
        emitWith (Assembly.report (if found.1.isFloat then "%f" else "%d"))
        goto .complete : Reading n Statement Verdict) p Fits Emptied :=
    fun found => .of_sim (V := C.Agrees {} {}) (show_value_sim found) (.refl p)
      (.after fun _ _ => .after fun _ _ => goto_fits rfl)
  refine .get (.within (.of_sim (offer_object_sim (C := C) p hplace) ⟨_, rfl, rfl⟩ (.any _ _))
    (fun _ e _ => ?_) fun reason e => ?_)
  · cases first with
    | none =>
        refine .nested (.of_sim hstarting ⟨_, rfl, rfl⟩ (.any _ _)) fun found _ _ => ?_
        exact hshow found
    | some token =>
        refine .nested (.of_sim (.seq (.redeliver (.refl _ token)) fun _ => hstarting)
          ⟨_, rfl, rfl⟩ (.any _ _)) fun found _ _ => ?_
        exact hshow found
  · cases first with
    | none => exact .abort reason.is_among_any
    | some token => exact .pure trivial

theorem feed_first_name_heeds (name : String) (hp : p.code = []) :
    HeedsToken n before (feedFirstName env name location) p := by
  refine .look fun locals => ?_
  dsimp only
  split
  · exact .modify (goto_heeds (Or.inr hp))
  · refine .get ?_
    split
    · exact read_shown_heeds _
    · exact .refuse

theorem feed_name_heeds (name : String) (hp : p.CodeFits) :
    HeedsToken n before (feedName env name location) p := by
  refine .get ?_
  split
  next hstage => exact feed_target_heeds name (hp (by rw [hstage]; rfl))
  next hstage =>
    refine .seq (feed_member?_heeds name (hp (by rw [hstage]; rfl))) fun found q hfound => ?_
    cases found with
    | some verdict => exact .pure hfound
    | none => exact pass_unknown_heeds hfound
  · exact feed_message_heeds name
  · exact feed_message_heeds name
  · exact feed_button_heeds env name
  · exact feed_button_heeds env name
  next hstage => exact feed_first_name_heeds name (hp (by rw [hstage]; rfl))
  · exact .refuse

theorem feed_instruction_heeds (word : Builtin) (hp : p.code = []) :
    Heeds before (feedInstruction env word : Reading n Statement Bool) p
      (fun found q => if found then q.CodeFits else q.code = []) fun _ _ => False := by
  have hcomplete : ∀ q : Statement, Yields
      (goto .complete >>= fun _ => pure true : Reading n Statement Bool) q
      fun found q => if found then q.CodeFits else q.code = [] :=
    fun q => .assoc (.modify (.pure fun hstage => absurd hstage nofun))
  refine .of_sim (feed_instruction_sim word) (.refl p) (.get ?_)
  cases word with
  | enable | disable => exact .after fun _ q => hcomplete q
  | startScript => exact .after fun _ _ => .after fun _ _ => .after fun _ q => hcomplete q
  | stopScript =>
      dsimp only
      split
      · exact .pure hp
      · exact .after fun _ _ => .after fun _ _ => .after fun _ q => hcomplete q
  | _ => exact .pure hp

theorem drop_reference_heeds (extension : Extension) (hp : p.code = []) :
    Heeds before (dropReference extension location : Reading n Statement Unit) p
      (fun _ q => q.code = []) fun _ _ => False := by
  refine .get ?_
  split
  · exact .warn (.modify (.pure hp))
  · exact .pure hp

/-- What is tolerated in the arguments of a call is no error. -/
theorem feed_call_heeds (code : Int) (instruction : Extension) :
    HeedsToken n before (feedCall env code instruction location) p := by
  refine .of_sim (feed_call_sim code instruction rfl
    fun _ => ⟨_, incomplete_since_tolerates env before⟩) (.refl p) ?_
  refine .after fun _ _ => .after fun found _ => ?_
  cases found with
  | none => exact .pure trivial
  | some found => exact .after fun _ _ => .after fun _ _ => .after fun _ _ => goto_fits rfl

theorem feed_extension?_heeds (word : Keyword) (hp : p.code = []) :
    Heeds before (feedExtension? env word location : Reading n Statement (Option Verdict)) p
      FitsIfAny EmptiedIfAny := by
  unfold feedExtension?
  split
  · exact .pure hp
  split
  · exact some_heeds (feed_call_heeds _ _)
  · exact .seq (drop_reference_heeds _ hp) fun _ _ _ => some_heeds (read_shown_heeds _)
  · exact .pure hp

/-- A declaration has no code, whatever its errors are. -/
theorem feed_declaration_heeds (word : Keyword) (hp : p.code = []) :
    HeedsToken n before (feedDeclaration env word location) p := by
  refine .of_meets ?_
  unfold feedDeclaration
  dsimp only
  split
  · exact .report (.bind .skip_line fun _ _ hq => .pure (hq ▸ hp))
  · exact .nested (.any _ _) fun _ _ _ => .pure hp

theorem pass_stray_heeds (problem : Problem) :
    HeedsToken n before (passStray problem location) p :=
  .warn (goto_heeds (Or.inl rfl))

theorem feed_first_word?_heeds (word : Builtin) (hp : p.code = []) :
    Heeds before (feedFirstWord? env word location : Reading n Statement (Option Verdict)) p
      FitsIfAny EmptiedIfAny := by
  unfold feedFirstWord?
  split
  · exact some_heeds (feed_declaration_heeds _ hp)
  · exact some_heeds (feed_declaration_heeds _ hp)
  · exact some_heeds (feed_declaration_heeds _ hp)
  · exact some_heeds (goto_heeds (Or.inr hp))
  · exact .modify_modes (some_heeds (goto_heeds (Or.inr hp)))
  · exact .modify (some_heeds (goto_heeds (Or.inl rfl)))
  · exact some_heeds (pass_stray_heeds _)
  · exact some_heeds (pass_stray_heeds _)
  · exact some_heeds (pass_stray_heeds _)
  · exact .pure hp

theorem feed_plain_keyword_heeds (word : Keyword) (hp : p.code = []) :
    HeedsToken n before (feedPlainKeyword env word location) p := by
  unfold feedPlainKeyword
  split
  · refine .bind (feed_first_word?_heeds _ hp) (fun found q hfound => ?_) fun found q hfound => ?_
    · cases found with
      | none => exact .refuse
      | some verdict => exact .pure hfound
    · cases found with
      | none => exact hfound.elim
      | some verdict => exact .pure hfound
  · exact .refuse

theorem feed_other_keyword_heeds (word : Keyword) (hp : p.code = []) :
    HeedsToken n before (feedOtherKeyword env word location) p := by
  refine .bind (feed_extension?_heeds word hp) (fun found q hfound => ?_) fun found q hfound => ?_
  · cases found with
    | some verdict => exact .pure hfound
    | none =>
        refine .get ?_
        split
        · exact read_shown_heeds _
        dsimp only
        split
        · exact .warn (.set (feed_plain_keyword_heeds word hfound))
        · exact feed_plain_keyword_heeds word hfound
  · cases found with
    | some verdict => exact .pure hfound
    | none => exact hfound.elim

theorem feed_first_keyword_heeds (word : Keyword) (hp : p.code = []) :
    HeedsToken n before (feedFirstKeyword env word location) p := by
  unfold feedFirstKeyword
  split
  · refine .seq (feed_instruction_heeds _ hp) fun found q hfound => ?_
    cases found with
    | true => exact .pure hfound
    | false => exact feed_other_keyword_heeds _ hfound
  · exact feed_other_keyword_heeds _ hp

/-- The value of an assignment may not be complete. A variable that is not known drops the line. -/
theorem feed_assignment_heeds (word : Keyword) (hp : p.CodeFits) :
    HeedsToken n before (feedAssignment env word location) p := by
  let C := (incompleteSince before false).coupling env
  refine .get ?_
  split
  · exact .of_sim (.seq (read_value_sim (C := C)) fun _ => .seq (emit_sim _) fun _ =>
      advance_sim _ rfl) (.refl p) (.after fun _ _ => .after fun _ _ => goto_fits rfl)
  · exact .of_sim (.seq (read_value_sim (C := C)) fun _ =>
      .seq (emit_with_sim (.assign_to_global _ rfl _ _) _ _) fun _ => advance_sim _ rfl) (.refl p)
      (.after fun _ _ => .after fun _ _ => goto_fits rfl)
  · exact .of_sim (.seq (read_value_sim (C := C)) fun _ =>
      .seq (emit_with_sim (.assign_to_member _ rfl rfl _ _ _) _ _) fun _ => advance_sim _ rfl)
        (.refl p)
      (.after fun _ _ => .after fun _ _ => goto_fits rfl)
  next hstage => exact pass_unknown_heeds (hp (by rw [hstage]; rfl))
  · exact .refuse

theorem feed_keyword_heeds (word : Keyword) (hp : p.CodeFits) :
    HeedsToken n before (feedKeyword env word location) p := by
  have htext : Heeds before (if isInstruction env word then
        feedName env (unquote location.literal) location
      else Reading.refuse (.keyword word) location : Reading n Statement Verdict) p Fits
      Emptied := by
    split
    · exact feed_name_heeds _ hp
    · exact .refuse
  refine .get ?_
  split
  · exact htext
  · exact htext
  · exact htext
  · exact htext
  next hstage => exact feed_target_heeds _ (hp (by rw [hstage]; rfl))
  next hstage =>
    refine .seq (feed_member?_heeds _ (hp (by rw [hstage]; rfl))) fun found q hfound => ?_
    cases found with
    | some verdict => exact .pure hfound
    | none => exact .refuse
  next hstage => exact feed_first_keyword_heeds word (hp (by rw [hstage]; rfl))
  next hstage => exact feed_first_keyword_heeds word (hp (by rw [hstage]; rfl))
  · split
    · exact feed_assignment_heeds word hp
    · exact .refuse

theorem feed_special_heeds (sign : Special) (hp : p.CodeFits) :
    HeedsToken n before (feedSpecial env sign location) p := by
  have hshown : ∀ first : Option Token, Heeds before
      (if p.allowExpression then readShown env first location
        else Reading.refuse (.special sign) location : Reading n Statement Verdict) p Fits
      Emptied := by
    intro first
    split
    · exact read_shown_heeds _
    · exact .refuse
  let C := (incompleteSince before false).coupling env
  have hmessage : Heeds before (emitFragment (Assembly.message p.name p.buttons) >>= fun _ =>
      pure .done : Reading n Statement Verdict) p Fits Emptied :=
    .of_sim (V := Eq) (.seq (emit_fragment_sim (C := C) (.message rfl _) _ _) fun _ => .pure rfl)
      (.refl p) (.after fun _ _ => .pure trivial)
  refine .get ?_
  split
  · exact .warn (.pure hp)
  · exact .pure trivial
  · exact .pure trivial
  next hstage => exact goto_heeds (Or.inr (hp (by rw [hstage]; rfl)))
  next hstage => exact .warn (goto_heeds (Or.inr (hp (by rw [hstage]; rfl))))
  next hstage => exact goto_heeds (Or.inr (hp (by rw [hstage]; rfl)))
  · exact hmessage
  · exact hmessage
  · exact goto_heeds (Or.inl rfl)
  next hstage => exact goto_heeds (Or.inr (hp (by rw [hstage]; rfl)))
  next hstage =>
    split
    · exact .seq (goto_heeds (Or.inr (hp (by rw [hstage]; rfl)))) fun _ _ _ => read_shown_heeds _
    · exact .refuse
  · exact hshown _
  · exact hshown _
  · exact hshown _
  · exact .refuse

theorem feed_number_heeds (token : Token) (hp : p.CodeFits) :
    HeedsToken n before (feedNumber env token location) p := by
  refine .get ?_
  split
  · split
    · exact read_shown_heeds _
    · exact .refuse
  next hstage => exact feed_target_heeds _ (hp (by rw [hstage]; rfl))
  · exact .refuse

/-- A statement that goes on behind a token has errors about incomplete expressions only. -/
theorem feed_heeds (token : Token) (hp : p.CodeFits) :
    HeedsToken n before (feed env token location) p := by
  cases token with
  | int | float => exact feed_number_heeds _ hp
  | name name => exact feed_name_heeds name hp
  | keyword word => exact feed_keyword_heeds word hp
  | special sign => exact feed_special_heeds sign hp
  | comment | endOfText => exact .refuse

/-- A statement that has been read has errors about incomplete expressions only, or no code. -/
theorem starting_heeds (first : Option (Token × Location)) (hp : p.CodeFits) :
    Heeds before (Reading.starting (feed env) (scan env) first : Reading n Statement Unit) p
      (fun _ _ => True) fun _ q => q.code = [] :=
  .starting (fun token _ => feed_heeds token hp)
    (fun _ hq => .scan (fun _ _ token _ _ hp => feed_heeds token hp) hq) hp

/-- What a line comes to: errors about incomplete expressions only, or no code. -/
theorem compile_heeds (first : Option (Token × Location)) :
    Heeds before (compile env first : Reading n Statement (Bool × Code)) p (fun _ _ => True)
      fun line _ => line.2 = [] := by
  have hreset : p.reset.CodeFits := fun _ => rfl
  refine .modify (.bind (.recover_line (starting_heeds first hreset)) (fun compiled q _ => .get ?_)
    fun compiled q hempty => .get ?_)
  · cases compiled with
    | true => exact .set (.pure trivial)
    | false => exact .set (.pure trivial)
  · cases compiled with
    | true => exact .set (.pure (hempty rfl))
    | false => exact .set (.pure rfl)

/-- If a line has code, every error with a place in it is about an expression that is missing or not
complete. So any other error leaves the line without code. -/
theorem compile_errors_incomplete (first : Option (Token × Location)) {s t : Session}
    (hmode : s.log.mode = .normal) (hdowngrade : s.log.downgrade = false) {compiled : Bool}
    {code : Code}
    (hrun : runOn (fun _ => compile env first) p s = ⟨.ok (compiled, code), q, t⟩)
    (hcode : code ≠ []) :
    ∀ entry ∈ t.log.entries.drop s.log.entries.length, entry.severity = .error →
      entry.location ≠ none →
        ∃ problem : Problem, problem.isIncomplete = true ∧ entry.message = problem.message := by
  have hlog : s.log.IncompleteSince s.log.entries.length false :=
    ⟨hmode, hdowngrade, Nat.le_refl _, by simp⟩
  obtain ⟨hlog, -⟩ | hempty := compile_heeds first s (Nat.le_refl _) _ _ _ hlog hrun
  · exact hlog.errors
  · exact absurd hempty hcode

end Statement

/-- A line that sets a local variable to nothing. -/
def bareAssignment : Session :=
  { scanner := Scanner.ofText "set a to\n", locals := ({} : Locals).declare .short "a" }

theorem bare_assignment_errors :
    ∃ q t, runOn (fun _ => Statement.compile {} none) {} bareAssignment =
        ⟨.ok (true, [0, 0xc8000000]), q, t⟩ ∧
      ∀ entry ∈ t.log.entries, entry.severity = .error → entry.location ≠ none →
        ∃ problem : Problem, problem.isIncomplete = true ∧ entry.message = problem.message := by
  have houtcome : (runOn (fun _ => Statement.compile {} none) {} bareAssignment).outcome =
      .ok (true, [0, 0xc8000000]) := by
    decide +kernel
  rcases hrun : runOn (fun _ => Statement.compile {} none) {} bareAssignment with ⟨outcome, q, t⟩
  rw [hrun] at houtcome
  cases houtcome
  exact ⟨q, t, rfl, Statement.compile_errors_incomplete none rfl rfl hrun (List.cons_ne_nil _ _)⟩

/-- A missing expression is an error, and yet its line has code. -/
theorem bare_assignment_keeps_code :
    bareAssignment.log.mode = .normal ∧ bareAssignment.log.downgrade = false ∧
      (runOn (fun _ => Statement.compile {} none) {} bareAssignment).outcome =
        .ok (true, [0, 0xc8000000]) ∧
      (runOn (fun _ => Statement.compile {} none) {} bareAssignment).session.log.entries.map
          (fun entry => (entry.severity, entry.message, entry.location.isSome)) =
        [(.error, "Missing expression", true)] := by
  decide +kernel

end QuestScript
