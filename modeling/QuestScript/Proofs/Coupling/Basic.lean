import QuestScript.Proofs.Coupling.Texts
import QuestScript.Proofs.Reading

/-!
# Two runs side by side

Many statements about compilations compare two runs of the same readers: with different logs, with
and without what stands behind the text, or in a script and on the console. A `Coupling` says when
the sessions of two runs correspond, and that the basic actions keep them in correspondence. The
left run may leave the comparison for good, for example by an error; its session is then broken.

`Coupling.Sim` says that two actions keep sessions in correspondence. There is a rule for each
basic action, and `Coupling.Sim.scan` is the rule for scans. What follows from them for the readers
of the language holds for every coupling.
-/

namespace QuestScript

/-- The session with the given setting for what becomes of errors. -/
def Session.downgrade (s : Session) (setting : Bool) : Session :=
  { s with log := { s.log with downgrade := setting } }

theorem Reading.run_attempt_downgraded {n : Nat} {σ α : Type} (x : Reading n σ α) (p : σ)
    (s : Session) (h : s.unread ≤ n) :
    (attempt (downgraded x)).run p s h =
      ⟨.ok (x.run p (s.downgrade true) h).outcome, (x.run p (s.downgrade true) h).reader,
        (x.run p (s.downgrade true) h).session.downgrade s.log.downgrade⟩ := rfl

/-- The problem is that an expression is not complete. Such an expression counts as a long without
code. -/
def Problem.isIncomplete : Problem → Bool
  | .missingExpression | .malformedExpression | .missingClosing => true
  | _ => false

/-- A change of the modes that does not look at whether a name is expected, and that leaves it alone
whether special characters are strays. -/
structure Modes.IsPlain (change : Modes → Modes) : Prop where
  expectName : ∀ modes expect, ∃ expect',
    change { modes with expectName := expect } = { change modes with expectName := expect' }
  ignoreSpecial : ∀ modes, (change modes).ignoreSpecial = modes.ignoreSpecial

namespace Modes.IsPlain

theorem expecting_name : IsPlain fun modes => { modes with expectName := true } :=
  ⟨fun _ _ => ⟨true, rfl⟩, fun _ => rfl⟩

theorem strict_keywords : IsPlain fun modes => { modes with strictKeywords := true } :=
  ⟨fun _ expect => ⟨expect, rfl⟩, fun _ => rfl⟩

theorem tolerant_names (setting : Bool) :
    IsPlain fun modes => { modes with tolerantNames := setting } :=
  ⟨fun _ expect => ⟨expect, rfl⟩, fun _ => rfl⟩

end Modes.IsPlain

/-- What two pulls bring side by side: the same up to texts that are alike, at places that
correspond for such a token. Comments may be of any kind. Behind a part of the text that forms no
token both readings stop. -/
inductive PullsAlike (texts : Likeness) (places : Token → Location → Location → Prop)
    (rel stop : Session → Session → Prop) : Item × Session → Item × Session → Prop where
  | blank {s t : Session} (h : rel s t) : PullsAlike texts places rel stop (.blank, s) (.blank, t)
  | token {s t : Session} {token token' : Token} {location location' : Location}
      {tolerantAfter : Option Bool} (htoken : token.Alike texts token')
      (hplace : places token location location') (h : rel s t) :
      PullsAlike texts places rel stop (.token token location tolerantAfter, s)
        (.token token' location' tolerantAfter, t)
  | comment {s t : Session} {text text' : String} {location location' : Location}
      {tolerantAfter tolerantAfter' : Option Bool} (h : rel s t) :
      PullsAlike texts places rel stop (.token (.comment text) location tolerantAfter, s)
        (.token (.comment text') location' tolerantAfter', t)
  | malformed {s t : Session} {location location' : Location}
      (h : stop { s with log := s.log.error Problem.syntaxError.message location }
        { t with log := t.log.error Problem.syntaxError.message location' }) :
      PullsAlike texts places rel stop (.malformed location, s) (.malformed location', t)
  | ended {s t : Session} (h : rel s t) : PullsAlike texts places rel stop (.ended, s) (.ended, t)

/-- When the sessions of two runs correspond, with the places in the two texts that do. The basic
actions keep sessions in correspondence; for pulls and for tokens that are put back see
`ScanCoupling`. -/
structure Coupling (env : Environment) (place : Location → Location → Prop) where
  /-- The sessions correspond. -/
  rel : Session → Session → Prop
  /-- The sessions correspond as far as they have to where the readings stop early. -/
  lost : Session → Session → Prop
  /-- The run on the left is out of the comparison. -/
  broken : Session → Prop
  /-- The reasons for which both readings may stop. -/
  stops : Abort → Prop
  /-- The problems that may be reported as errors by readings that go on. -/
  reports : Problem → Prop
  /-- Every error on the left puts it out of the comparison. -/
  strict : Prop
  /-- The texts that may stand for each other. -/
  texts : Likeness
  /-- The places at which the two runs may report a problem. -/
  spot : Location → Location → Prop
  literal_alike : ∀ {l l'}, place l l' → texts.rel l.literal l'.literal
  place_start : place {} {}
  spot_of_place : ∀ {l l'}, place l l' → spot l l'
  reports_of_isIncomplete : ∀ {problem}, problem.isIncomplete = true → reports problem
  lost_of_rel : ∀ {s t}, rel s t → lost s t
  stops_internal : ∀ defect, stops (.internal defect)
  broken_of_precedes : ∀ {s s'}, broken s → s.Precedes s' → broken s'
  locals_eq : ∀ {s t}, rel s t → t.locals = s.locals
  literals_alike : ∀ {s t}, rel s t → s.literals.Alike texts t.literals
  lineStart_eq : ∀ {s t}, rel s t → t.scanner.lineStart = s.scanner.lineStart
  setLocals : ∀ {s t}, rel s t → ∀ locals, rel { s with locals } { t with locals }
  setLiterals : ∀ {s t}, rel s t → ∀ {pool pool'}, pool.Alike texts pool' →
    rel { s with literals := pool } { t with literals := pool' }
  mapModes : ∀ {s t}, rel s t → ∀ {change}, Modes.IsPlain change →
    rel (s.mapModes change) (t.mapModes change)
  lost_mapModes : ∀ {s t}, lost s t → ∀ {change}, Modes.IsPlain change →
    lost (s.mapModes change) (t.mapModes change)
  warning : ∀ {s t l l'}, rel s t → spot l l' →
    ∀ {problem problem' : Problem}, problem.Alike texts problem' →
    broken { s with log := s.log.warning problem.message l } ∨
      rel { s with log := s.log.warning problem.message l }
        { t with log := t.log.warning problem'.message l' }
  error : ∀ {s t l l'} {problem : Problem}, reports problem → rel s t → spot l l' →
    broken { s with log := s.log.error problem.message l } ∨
      rel { s with log := s.log.error problem.message l }
        { t with log := t.log.error problem.message l' }
  fail : ∀ {s t l l'}, rel s t → spot l l' → ∀ problem : Problem,
    broken { s with log := s.log.error problem.message l } ∨
      stops .source ∧ lost { s with log := s.log.error problem.message l }
        { t with log := t.log.error problem.message l' }
  broken_of_strict : ∀ {s t}, strict → rel s t → ∀ (problem : Problem) l,
    broken { s with log := s.log.error problem.message l }
  endOfFile : ∀ {s t}, rel s t → broken { s with log := s.log.endOfFile } ∨
    stops .endOfFile ∧ lost { s with log := s.log.endOfFile } { t with log := t.log.endOfFile }

theorem PullsAlike.mono {texts : Likeness} {places places' : Token → Location → Location → Prop}
    {rel stop : Session → Session → Prop} {r r' : Item × Session}
    (h : PullsAlike texts places rel stop r r')
    (hplaces : ∀ {token l l'}, places token l l' → places' token l l') :
    PullsAlike texts places' rel stop r r' := by
  cases h with
  | blank h => exact .blank h
  | token htoken hplace h => exact .token htoken (hplaces hplace) h
  | comment h => exact .comment h
  | malformed h => exact .malformed h
  | ended h => exact .ended h

/-- Places that correspond for a token. Readers go back to the spelling of keywords and integers;
all other tokens only have to stand where a problem may be reported. -/
def Coupling.At {env : Environment} {place : Location → Location → Prop} (C : Coupling env place) :
    Token → Location → Location → Prop
  | .keyword _ | .int _ => place
  | _ => C.spot

/-- A coupling in which sessions stay in correspondence where tokens are pulled and put back. -/
structure ScanCoupling (env : Environment) (place : Location → Location → Prop) extends
    Coupling env place where
  broken_putBack : ∀ {s}, broken s → ∀ token l, broken (s.putBack token l)
  redeliver : ∀ {s t}, rel s t → ∀ {token token'}, token.Alike texts token' →
    rel (s.redeliver token) (t.redeliver token')
  putBack : ∀ {s t l l' token token'}, rel s t → toCoupling.At token l l' →
    token.Alike texts token' → rel (s.putBack token l) (t.putBack token' l')
  /-- The run on the right may come to a blank that the one on the left does not have. -/
  pull : ∀ {s t}, rel s t → broken (s.pull env).2 ∨
    PullsAlike texts toCoupling.At rel (fun s t => broken s ∨ stops .source ∧ lost s t)
      (s.pull env) (t.pull env) ∨
    ∃ t', t.pull env = (.blank, t') ∧ rel s t'

namespace Coupling

variable {env : Environment} {place : Location → Location → Prop} (C : Coupling env place)

/-- Sessions that correspond where a reading stopped do so as well where it goes on, and every
problem may be reported. -/
structure Recovers : Prop where
  rel_of_lost : ∀ {s t}, C.lost s t → C.rel s t
  reports : ∀ problem, C.reports problem

theorem At.of_place (C : Coupling env place) {l l' : Location} (h : place l l') (token : Token) :
    C.At token l l' := by
  cases token with
  | keyword | int => exact h
  | _ => exact C.spot_of_place h

theorem At.spot {C : Coupling env place} {token : Token} {l l' : Location} (h : C.At token l l') :
    C.spot l l' := by
  cases token with
  | keyword | int => exact C.spot_of_place h
  | _ => exact h

/-- Where reports ask for as much as readers do, the places correspond for every token. -/
theorem At.place_of_spot {C : Coupling env place} {token : Token} {l l' : Location}
    (h : C.At token l l') (hspot : C.spot l l' → place l l') : place l l' := by
  cases token with
  | keyword | int => exact h
  | _ => exact hspot h

/-- The answers of the two readers to a token at the given places agree. -/
inductive Agrees (l l' : Location) : Verdict → Verdict → Prop where
  | more : Agrees l l' .more .more
  | done : Agrees l l' .done .done
  | handBack {token token' : Token} (htoken : token.Alike C.texts token')
      (hplace : C.At token l l') : Agrees l l' (.handBack token) (.handBack token')
  | giveUp {token token' : Token} (htoken : token.Alike C.texts token')
      (hplace : C.At token l l') {reason : Abort} (h : C.stops reason) :
      Agrees l l' (.giveUp token reason) (.giveUp token' reason)

/-- The outcomes of two readings agree. -/
inductive Outcomes {α β : Type} (V : α → β → Prop) : Except Abort α → Except Abort β → Prop where
  | ok {a : α} {b : β} (h : V a b) : Outcomes V (.ok a) (.ok b)
  | error {reason : Abort} (h : C.stops reason) : Outcomes V (.error reason) (.error reason)

section Results

variable {n m : Nat} {σ τ α β γ δ : Type} {ρ : σ → τ → Prop} {V : α → β → Prop} {W : γ → δ → Prop}

/-- What two actions leave: corresponding states of the readers, sessions and values, unless the
run on the left is out of the comparison. -/
inductive Ends (ρ : σ → τ → Prop) (V : α → β → Prop) : Result σ α → Result τ β → Prop where
  | broken {r : Result σ α} {r' : Result τ β} (h : C.broken r.session) : Ends ρ V r r'
  | ok {a : α} {b : β} {p : σ} {q : τ} {s t : Session} (ha : V a b) (hp : ρ p q) (h : C.rel s t) :
      Ends ρ V ⟨.ok a, p, s⟩ ⟨.ok b, q, t⟩
  | stopped {reason : Abort} {p : σ} {q : τ} {s t : Session} (hreason : C.stops reason)
      (hp : ρ p q) (h : C.lost s t) : Ends ρ V ⟨.error reason, p, s⟩ ⟨.error reason, q, t⟩

/-- Started on corresponding states and sessions, the two actions leave corresponding ones. -/
def Sim (ρ : σ → τ → Prop) (V : α → β → Prop) (x : Reading n σ α) (y : Reading m τ β) : Prop :=
  ∀ p q s t hs ht, ρ p q → C.rel s t → C.Ends ρ V (x.run p s hs) (y.run q t ht)

/-- Whatever the action does, it puts the run out of the comparison. -/
def Breaks (x : Reading n σ α) : Prop :=
  ∀ p s t hs, C.rel s t → C.broken (x.run p s hs).session

variable {C} {x : Reading n σ α} {y : Reading m τ β} {f : α → Reading n σ γ}
  {g : β → Reading m τ δ}

theorem Ends.mono {r : Result σ α} {r' : Result τ β} {ρ' : σ → τ → Prop} (h : C.Ends ρ V r r')
    (himp : ∀ p q, ρ p q → ρ' p q) : C.Ends ρ' V r r' := by
  cases h with
  | broken h => exact .broken h
  | ok ha hp h => exact .ok ha (himp _ _ hp) h
  | stopped hreason hp h => exact .stopped hreason (himp _ _ hp) h

/-- An action started on a broken session leaves a broken one. -/
theorem broken_run (x : Reading n σ α) {p : σ} {s : Session} (hs : s.unread ≤ n)
    (h : C.broken s) : C.broken (x.run p s hs).session :=
  C.broken_of_precedes h (x.precedes_run p s hs)

theorem broken_restore_names {s : Session} (h : C.broken s) (tolerantAfter : Option Bool) :
    C.broken (s.restoreNames tolerantAfter) :=
  C.broken_of_precedes h (s.precedes_restore_names tolerantAfter)

theorem rel_restore_names {s t : Session} (h : C.rel s t) (tolerantAfter : Option Bool) :
    C.rel (s.restoreNames tolerantAfter) (t.restoreNames tolerantAfter) := by
  cases tolerantAfter with
  | none => exact h
  | some setting => exact C.mapModes h (.tolerant_names setting)

theorem lost_restore_names {s t : Session} (h : C.lost s t) (tolerantAfter : Option Bool) :
    C.lost (s.restoreNames tolerantAfter) (t.restoreNames tolerantAfter) := by
  cases tolerantAfter with
  | none => exact h
  | some setting => exact C.lost_mapModes h (.tolerant_names setting)

namespace Sim

/-! ### Rules for basic actions -/

protected theorem pure {a : α} {b : β} (h : V a b) :
    C.Sim ρ V (pure a : Reading n σ α) (pure b : Reading m τ β) :=
  fun _ _ _ _ _ _ hp hrel => .ok h hp hrel

/-- A run that is out of the comparison stays so. -/
theorem broken_bind {p : σ} {s : Session} {hs : s.unread ≤ n}
    (h : C.broken (x.run p s hs).session) : C.broken ((x >>= f).run p s hs).session := by
  have hle := x.unread_run_le p s hs
  rcases hrun : x.run p s hs with ⟨outcome, p', s'⟩
  rw [hrun] at h hle
  cases outcome with
  | error reason =>
      rw [Reading.run_bind_of_error hrun]
      exact h
  | ok a =>
      rw [Reading.run_bind_of_ok hrun (Nat.le_trans hle hs)]
      exact broken_run _ _ h

/-- Goes on behind two actions at the states and sessions that they have been started on. -/
theorem bind_ends {p : σ} {q : τ} {s t : Session} {hs : s.unread ≤ n} {ht : t.unread ≤ m}
    (hends : C.Ends ρ V (x.run p s hs) (y.run q t ht))
    (hf : ∀ a b, V a b → C.Sim ρ W (f a) (g b)) :
    C.Ends ρ W ((x >>= f).run p s hs) ((y >>= g).run q t ht) := by
  have hle := x.unread_run_le p s hs
  have hle' := y.unread_run_le q t ht
  generalize hrun : x.run p s hs = r at hends hle
  generalize hrun' : y.run q t ht = r' at hends hle'
  cases hends with
  | broken h => exact .broken (broken_bind (hrun ▸ h))
  | ok ha hp' hrel' =>
      rw [Reading.run_bind_of_ok hrun (Nat.le_trans hle hs),
        Reading.run_bind_of_ok hrun' (Nat.le_trans hle' ht)]
      exact hf _ _ ha _ _ _ _ _ _ hp' hrel'
  | stopped hreason hp' hlost =>
      rw [Reading.run_bind_of_error hrun, Reading.run_bind_of_error hrun']
      exact .stopped hreason hp' hlost

protected theorem bind (hx : C.Sim ρ V x y) (hf : ∀ a b, V a b → C.Sim ρ W (f a) (g b)) :
    C.Sim ρ W (x >>= f) (y >>= g) :=
  fun p q s t hs ht hp hrel => bind_ends (hx p q s t hs ht hp hrel) hf

/-- Goes on with one and the same value. -/
theorem seq {f : α → Reading n σ γ} {y : Reading m τ α} {g : α → Reading m τ δ}
    (hx : C.Sim ρ Eq x y) (hf : ∀ a, C.Sim ρ W (f a) (g a)) : C.Sim ρ W (x >>= f) (y >>= g) :=
  .bind hx fun a _ hab => hab ▸ hf a

protected theorem map {f : α → γ} {g : β → δ} (hx : C.Sim ρ V x y)
    (h : ∀ a b, V a b → W (f a) (g b)) : C.Sim ρ W (f <$> x) (g <$> y) := by
  rw [map_eq_pure_bind, map_eq_pure_bind]
  exact hx.bind fun a b hab => .pure (h a b hab)

/-- A run on the left that is put out of the comparison goes with anything on the right. -/
theorem of_breaks (hx : C.Breaks x) : C.Sim ρ V x y :=
  fun p _ s t hs _ _ hrel => .broken (hx p s t hs hrel)

protected theorem get : C.Sim ρ ρ (get : Reading n σ σ) (get : Reading m τ τ) :=
  fun _ _ _ _ _ _ hp hrel => .ok hp hp hrel

/-- Two actions that look at the states of their readers first. -/
theorem get_bind {f : σ → Reading n σ γ} {g : τ → Reading m τ δ}
    (h : ∀ p q s t hs ht, ρ p q → C.rel s t → C.Ends ρ W ((f p).run p s hs) ((g q).run q t ht)) :
    C.Sim ρ W (get >>= f) (get >>= g) := by
  intro p q s t hs ht hp hrel
  rw [Reading.run_get_bind, Reading.run_get_bind]
  exact h p q s t hs ht hp hrel

protected theorem set {p : σ} {q : τ} (h : ρ p q) :
    C.Sim ρ Eq (set p : Reading n σ PUnit) (set q : Reading m τ PUnit) :=
  fun _ _ _ _ _ _ _ hrel => .ok rfl h hrel

protected theorem modify {change : σ → σ} {change' : τ → τ}
    (h : ∀ p q, ρ p q → ρ (change p) (change' q)) :
    C.Sim ρ Eq (modify change : Reading n σ PUnit) (modify change' : Reading m τ PUnit) :=
  fun p q _ _ _ _ hp hrel => .ok rfl (h p q hp) hrel

protected theorem abort {reason : Abort} (h : C.stops reason) :
    C.Sim ρ V (Reading.abort reason : Reading n σ α) (Reading.abort reason : Reading m τ β) :=
  fun _ _ _ _ _ _ hp hrel => .stopped h hp (C.lost_of_rel hrel)

protected theorem of_outcome {outcome : Except Abort α} {outcome' : Except Abort β}
    (h : C.Outcomes V outcome outcome') :
    C.Sim ρ V (Reading.ofOutcome outcome : Reading n σ α)
      (Reading.ofOutcome outcome' : Reading m τ β) := by
  cases h with
  | ok h => exact .pure h
  | error h => exact .abort h

/-- A computation that meets a defect on both sides or on none. -/
protected theorem of_defect (outcome : Except Defect α) :
    C.Sim ρ Eq (Reading.ofDefect outcome : Reading n σ α)
      (Reading.ofDefect outcome : Reading m τ α) := by
  cases outcome with
  | ok a => exact .pure rfl
  | error defect => exact .abort (C.stops_internal defect)

protected theorem look {view : Session → α} {view' : Session → β}
    (h : ∀ s t, C.rel s t → V (view s) (view' t)) :
    C.Sim ρ V (Reading.look view : Reading n σ α) (Reading.look view' : Reading m τ β) :=
  fun _ _ s t _ _ hp hrel => .ok (h s t hrel) hp hrel

/-- Looks at the local variables, which are the same on both sides. -/
theorem locals :
    C.Sim ρ Eq (Reading.look (·.locals) : Reading n σ Locals)
      (Reading.look (·.locals) : Reading m τ Locals) :=
  .look fun _ _ h => (C.locals_eq h).symm

protected theorem declare (type : ValueType) (name : String) :
    C.Sim ρ Eq (Reading.declare type name : Reading n σ Unit)
      (Reading.declare type name : Reading m τ Unit) := by
  intro p q s t hs ht hp hrel
  refine .ok rfl hp ?_
  rw [C.locals_eq hrel]
  exact C.setLocals hrel _

protected theorem modify_modes {change : Modes → Modes} (hchange : Modes.IsPlain change) :
    C.Sim ρ Eq (Reading.modifyModes change : Reading n σ Unit)
      (Reading.modifyModes change : Reading m τ Unit) :=
  fun _ _ _ _ _ _ hp hrel => .ok rfl hp (C.mapModes hrel hchange)

protected theorem with_literals {make make' : Literals → α × Literals}
    (hmake : Literals.MakesAlike C.texts make make')
    (within : ∀ pool : Literals, pool.Within (make pool).2)
    (within' : ∀ pool : Literals, pool.Within (make' pool).2) :
    C.Sim ρ Eq (Reading.withLiterals make within : Reading n σ α)
      (Reading.withLiterals make' within' : Reading m τ α) := by
  intro p q s t hs ht hp hrel
  obtain ⟨hvalue, hliterals⟩ := hmake _ _ (C.literals_alike hrel)
  exact .ok hvalue.symm hp (C.setLiterals hrel hliterals)

variable {l l' : Location} {token token' : Token}

protected theorem redeliver {C : ScanCoupling env place} (htoken : token.Alike C.texts token') :
    C.Sim ρ Eq (Reading.redeliver token : Reading n σ Unit)
      (Reading.redeliver token' : Reading m τ Unit) :=
  fun _ _ _ _ _ _ hp hrel => .ok rfl hp (C.redeliver hrel htoken)

theorem warn_at {problem problem' : Problem} (hproblem : problem.Alike C.texts problem')
    (hspot : C.spot l l') :
    C.Sim ρ Eq (Reading.warn problem l : Reading n σ Unit)
      (Reading.warn problem' l' : Reading m τ Unit) := by
  intro p q s t hs ht hp hrel
  obtain hbroken | hrel := C.warning hrel hspot hproblem
  · exact .broken hbroken
  · exact .ok rfl hp hrel

theorem warn_alike {problem problem' : Problem} (hproblem : problem.Alike C.texts problem')
    (hplace : place l l') :
    C.Sim ρ Eq (Reading.warn problem l : Reading n σ Unit)
      (Reading.warn problem' l' : Reading m τ Unit) :=
  warn_at hproblem (C.spot_of_place hplace)

protected theorem warn (problem : Problem) (hplace : place l l') :
    C.Sim ρ Eq (Reading.warn problem l : Reading n σ Unit)
      (Reading.warn problem l' : Reading m τ Unit) :=
  warn_alike (.same problem) hplace

theorem report_at {problem : Problem} (hreports : C.reports problem) (hspot : C.spot l l') :
    C.Sim ρ Eq (Reading.report problem l : Reading n σ Unit)
      (Reading.report problem l' : Reading m τ Unit) := by
  intro p q s t hs ht hp hrel
  obtain hbroken | hrel := C.error hreports hrel hspot
  · exact .broken hbroken
  · exact .ok rfl hp hrel

protected theorem report {problem : Problem} (hreports : C.reports problem) (hplace : place l l') :
    C.Sim ρ Eq (Reading.report problem l : Reading n σ Unit)
      (Reading.report problem l' : Reading m τ Unit) :=
  report_at hreports (C.spot_of_place hplace)

theorem fail_at (problem : Problem) (hspot : C.spot l l') :
    C.Sim ρ V (Reading.fail problem l : Reading n σ α)
      (Reading.fail problem l' : Reading m τ β) := by
  intro p q s t hs ht hp hrel
  obtain hbroken | ⟨hstops, hlost⟩ := C.fail hrel hspot problem
  · exact .broken hbroken
  · exact .stopped hstops hp hlost

/-- Tokens that are alike are refused for the same problem. -/
protected theorem refuse (htoken : token.Alike C.texts token') (hplace : C.At token l l') :
    C.Sim ρ (C.Agrees l l') (Reading.refuse token l : Reading n σ Verdict)
      (Reading.refuse token' l' : Reading m τ Verdict) := by
  have hspot := hplace.spot
  cases htoken with
  | _ => exact fail_at _ hspot

theorem progress_refuse (progress : Progress) (htoken : token.Alike C.texts token')
    (hplace : C.At token l l') :
    C.Sim ρ (C.Agrees l l') (progress.refuse token l : Reading n σ Verdict)
      (progress.refuse token' l' : Reading m τ Verdict) := by
  unfold Progress.refuse
  split
  · exact .pure (.handBack htoken hplace)
  · exact .refuse htoken hplace

/-! ### Other readers -/

section Other

variable {σ' τ' : Type} {R : σ' → τ' → Prop} {p : σ'} {q : τ'} {x : Reading n σ' α}
  {y : Reading m τ' β}

theorem nested_ends {p' : σ} {q' : τ} {s t : Session} {hs : s.unread ≤ n} {ht : t.unread ≤ m}
    (hends : C.Ends R V (x.run p s hs) (y.run q t ht)) (hp' : ρ p' q') :
    C.Ends ρ (fun a b => V a.1 b.1 ∧ R a.2 b.2)
      ((Reading.nested p x : Reading n σ (α × σ')).run p' s hs)
      ((Reading.nested q y : Reading m τ (β × τ')).run q' t ht) := by
  have hnested : ∀ {k : Nat} {κ κ' ε : Type} (z : Reading k κ ε) (u : κ) (v : κ') (w : Session) hw,
      (Reading.nested u z : Reading k κ' (ε × κ)).run v w hw =
        ⟨(z.run u w hw).outcome.map (·, (z.run u w hw).reader), v, (z.run u w hw).session⟩ := by
    intro k κ κ' ε z u v w hw
    rcases hrun : z.run u w hw with ⟨_ | _, _, _⟩ <;>
      simp [Reading.nested, Reading.run_bind, Reading.within, hrun, Reading.ofOutcome, Except.map]
  rw [hnested, hnested]
  generalize x.run p s hs = r at hends ⊢
  generalize y.run q t ht = r' at hends ⊢
  cases hends with
  | broken h => exact .broken h
  | ok ha hq h => exact .ok ⟨ha, hq⟩ hp' h
  | stopped hreason hq h => exact .stopped hreason hp' h

theorem nested (hp : R p q) (hx : C.Sim R V x y) :
    C.Sim ρ (fun a b => V a.1 b.1 ∧ R a.2 b.2) (Reading.nested p x : Reading n σ (α × σ'))
      (Reading.nested q y : Reading m τ (β × τ')) :=
  fun _ _ s t hs ht hp' hrel => nested_ends (hx p q s t hs ht hp hrel) hp'

theorem within (hC : C.Recovers) (hp : R p q) (hx : C.Sim R V x y) :
    C.Sim ρ (fun a b => C.Outcomes V a.1 b.1 ∧ R a.2 b.2)
      (Reading.within p x : Reading n σ (Except Abort α × σ'))
      (Reading.within q y : Reading m τ (Except Abort β × τ')) := by
  intro p' q' s t hs ht hp' hrel
  have hends := hx p q s t hs ht hp hrel
  unfold Reading.within
  generalize hrun : x.run p s hs = r at hends
  generalize hrun' : y.run q t ht = r' at hends
  simp only [hrun, hrun']
  cases hends with
  | broken h => exact .broken h
  | ok ha hq h => exact .ok ⟨.ok ha, hq⟩ hp' h
  | stopped hreason hq h => exact .ok ⟨.error hreason, hq⟩ hp' (hC.rel_of_lost h)

end Other

theorem attempt_ends (hC : C.Recovers) {p : σ} {q : τ} {s t : Session} {hs : s.unread ≤ n}
    {ht : t.unread ≤ m} (hends : C.Ends ρ V (x.run p s hs) (y.run q t ht)) :
    C.Ends ρ (C.Outcomes V) ((Reading.attempt x).run p s hs) ((Reading.attempt y).run q t ht) := by
  unfold Reading.attempt
  generalize hrun : x.run p s hs = r at hends
  generalize hrun' : y.run q t ht = r' at hends
  simp only [hrun, hrun']
  cases hends with
  | broken h => exact .broken h
  | ok ha hq h => exact .ok (.ok ha) hq h
  | stopped hreason hq h => exact .ok (.error hreason) hq (hC.rel_of_lost h)

/-! ### Scans -/

end Sim

/-- The session that a turn comes to. -/
def sessionOf : Reading.Turn σ → Session
  | .last r => r.session
  | .again _ s => s

/-- What two turns come to side by side. -/
inductive Turns (C : Coupling env place) (ρ : σ → τ → Prop) :
    Reading.Turn σ → Reading.Turn τ → Prop where
  | broken {turn : Reading.Turn σ} {turn' : Reading.Turn τ} (h : C.broken (sessionOf turn)) :
      Turns C ρ turn turn'
  | last {r : Result σ Unit} {r' : Result τ Unit} (h : C.Ends ρ Eq r r') :
      Turns C ρ (.last r) (.last r')
  | again {p : σ} {q : τ} {s t : Session} (hp : ρ p q) (h : C.rel s t) :
      Turns C ρ (.again p s) (.again q t)

theorem broken_of_answer {C : ScanCoupling env place} {r : Result σ Verdict}
    (h : C.broken r.session) (l : Location) (tolerantAfter : Option Bool) :
    C.broken (sessionOf (Reading.Turn.ofAnswer l tolerantAfter r)) := by
  have hafter := broken_restore_names h tolerantAfter
  rcases r with ⟨_ | verdict, p, s⟩
  · exact hafter
  · cases verdict with
    | more | done => exact hafter
    | handBack token | giveUp token reason => exact C.broken_putBack hafter token l

theorem Turns.of_answer {C : ScanCoupling env place} {r : Result σ Verdict}
    {r' : Result τ Verdict} {l l' : Location} (h : C.Ends ρ (C.Agrees l l') r r')
    (tolerantAfter : Option Bool) :
    C.Turns ρ (.ofAnswer l tolerantAfter r) (.ofAnswer l' tolerantAfter r') := by
  cases h with
  | broken h => exact .broken (broken_of_answer h l tolerantAfter)
  | stopped hreason hp h => exact .last (.stopped hreason hp (lost_restore_names h tolerantAfter))
  | ok ha hp h =>
      have hafter := rel_restore_names h tolerantAfter
      cases ha with
      | more => exact .again hp hafter
      | done => exact .last (.ok rfl hp hafter)
      | handBack htoken hplace => exact .last (.ok rfl hp (C.putBack hafter hplace htoken))
      | giveUp htoken hplace hreason =>
          exact .last (.stopped hreason hp (C.lost_of_rel (C.putBack hafter hplace htoken)))

theorem Ends.finish {mayEnd : σ → Bool} {mayEnd' : τ → Bool} {p : σ} {q : τ} {s t : Session}
    (hend : mayEnd p = mayEnd' q) (hp : ρ p q) (h : C.rel s t) :
    C.Ends ρ Eq (Reading.finish mayEnd p s) (Reading.finish mayEnd' q t) := by
  unfold Reading.finish
  rw [hend]
  split
  · exact .ok rfl hp h
  · obtain hbroken | ⟨hstops, hlost⟩ := C.endOfFile h
    · exact .broken hbroken
    · exact .stopped hstops hp hlost

theorem broken_finish {mayEnd : σ → Bool} {p : σ} {s : Session} (h : C.broken s) :
    C.broken (Reading.finish mayEnd p s).session :=
  C.broken_of_precedes h (Reading.precedes_finish mayEnd p s)

section Scan

variable {mayEnd : σ → Bool} {mayEnd' : τ → Bool}
  {feed : (k : Nat) → k < n → Token → Location → Reading k σ Verdict}
  {feed' : (k : Nat) → k < m → Token → Location → Reading k τ Verdict}
  {p : σ} {q : τ} {s t : Session}

/-- Where a pull puts the run out of the comparison, the rest of the turn does not bring it
back. -/
theorem broken_turn {C : ScanCoupling env place} (hs : s.unread ≤ n)
    (h : C.broken (s.pull env).2) :
    C.broken (sessionOf (Reading.turn env mayEnd feed p s hs)) := by
  unfold Reading.turn
  split
  all_goals rename_i hpull; rw [hpull] at h
  · exact broken_finish h
  · exact h
  · exact C.broken_of_precedes h (Session.precedes_of_log _ (Log.precedes_error _ _ _))
  · exact broken_finish h
  · exact h
  · exact broken_of_answer (broken_run _ _ h) _ _

namespace Sim

/-- A scan whose first turn puts the run out of the comparison. -/
theorem broken_scan_from {hs : s.unread ≤ n}
    (h : C.broken (sessionOf (Reading.turn env mayEnd feed p s hs))) :
    C.broken (Reading.scanFrom env mayEnd feed p s hs).session := by
  generalize hturn : Reading.turn env mayEnd feed p s hs = turn at h
  cases turn with
  | last r =>
      rw [Reading.scan_from_of_last hturn]
      exact h
  | again p' s' =>
      have hlt := Reading.unread_lt_of_turn hturn
      rw [Reading.scan_from_of_again hturn (by omega)]
      exact C.broken_of_precedes h (Reading.precedes_scan_from _ _ _ _ _ _)

end Sim

/-- Two scans that come to tokens, given what their turns come to and what they do behind them. -/
theorem Ends.scan_from_of_turns {s' t' : Session} {token token' : Token} {l l' : Location}
    {tolerantAfter tolerantAfter' : Option Bool} {hs : s.unread ≤ n} {ht : t.unread ≤ m}
    (hpull : s.pull env = (.token token l tolerantAfter, s'))
    (hpull' : t.pull env = (.token token' l' tolerantAfter', t')) (htoken : token.IsOffered)
    (htoken' : token'.IsOffered)
    (hturns : ∀ hk hk', C.Turns ρ
      (.ofAnswer l tolerantAfter ((feed s'.unread hk token l).run p s' (Nat.le_refl _)))
      (.ofAnswer l' tolerantAfter' ((feed' t'.unread hk' token' l').run q t' (Nat.le_refl _))))
    (hmore : ∀ hk hk' p' q' s₁ t₁ hs₁ ht₁,
      (feed s'.unread hk token l).run p s' (Nat.le_refl _) = ⟨.ok .more, p', s₁⟩ →
      (feed' t'.unread hk' token' l').run q t' (Nat.le_refl _) = ⟨.ok .more, q', t₁⟩ → ρ p' q' →
      C.rel (s₁.restoreNames tolerantAfter) (t₁.restoreNames tolerantAfter') →
      s₁.unread + t₁.unread < s.unread + t.unread →
      C.Ends ρ Eq (Reading.scanFrom env mayEnd feed p' (s₁.restoreNames tolerantAfter) hs₁)
        (Reading.scanFrom env mayEnd' feed' q' (t₁.restoreNames tolerantAfter') ht₁)) :
    C.Ends ρ Eq (Reading.scanFrom env mayEnd feed p s hs)
      (Reading.scanFrom env mayEnd' feed' q t ht) := by
  have hlt := s.unread_pull_lt env
  have hlt' := t.unread_pull_lt env
  rw [hpull] at hlt
  rw [hpull'] at hlt'
  have hk : s'.unread < n := Nat.lt_of_lt_of_le (hlt (by rintro ⟨⟩)) hs
  have hk' : t'.unread < m := Nat.lt_of_lt_of_le (hlt' (by rintro ⟨⟩)) ht
  have hturn : Reading.turn env mayEnd feed p s hs = _ :=
    Reading.turn_of_token hpull htoken.1 htoken.2 hk
  have hturn' : Reading.turn env mayEnd' feed' q t ht = _ :=
    Reading.turn_of_token hpull' htoken'.1 htoken'.2 hk'
  replace hturns := hturns hk hk'
  replace hmore := hmore hk hk'
  generalize (feed s'.unread hk token l).run p s' (Nat.le_refl _) = r at hturns hmore hturn
  generalize (feed' t'.unread hk' token' l').run q t' (Nat.le_refl _) = r' at hturns hmore hturn'
  rw [← hturn, ← hturn'] at hturns
  generalize hx : Reading.turn env mayEnd feed p s hs = x at hturns
  generalize hx' : Reading.turn env mayEnd' feed' q t ht = x' at hturns
  -- Only behind two turns that want more do the scans go on.
  cases hturns with
  | broken h => exact .broken (Sim.broken_scan_from (hx ▸ h))
  | last h =>
      rw [Reading.scan_from_of_last hx, Reading.scan_from_of_last hx']
      exact h
  | again hp h =>
      have hlt := Reading.unread_lt_of_turn hx
      have hlt' := Reading.unread_lt_of_turn hx'
      rw [Reading.scan_from_of_again hx (by omega), Reading.scan_from_of_again hx' (by omega)]
      obtain ⟨outcome, reader, session⟩ := r
      obtain ⟨outcome', reader', session'⟩ := r'
      obtain ⟨rfl, rfl, rfl⟩ := Reading.Turn.of_answer_eq_again.1 (hturn.symm.trans hx)
      obtain ⟨rfl, rfl, rfl⟩ := Reading.Turn.of_answer_eq_again.1 (hturn'.symm.trans hx')
      rw [Session.unread_restore_names] at hlt hlt'
      exact hmore _ _ _ _ _ _ rfl rfl hp h (by omega)

/-- Two scans that come to tokens on which their readers agree, and what they do behind them. -/
theorem Ends.scan_from_of_tokens {C : ScanCoupling env place} {s' t' : Session}
    {token token' : Token} {l l' : Location} {tolerantAfter : Option Bool} {hs : s.unread ≤ n}
    {ht : t.unread ≤ m}
    (hpull : s.pull env = (.token token l tolerantAfter, s'))
    (hpull' : t.pull env = (.token token' l' tolerantAfter, t')) (htoken : token.IsOffered)
    (htoken' : token'.IsOffered)
    (hends : ∀ hk hk', C.Ends ρ (C.Agrees l l')
      ((feed s'.unread hk token l).run p s' (Nat.le_refl _))
      ((feed' t'.unread hk' token' l').run q t' (Nat.le_refl _)))
    (hmore : ∀ hk hk' p' q' s₁ t₁ hs₁ ht₁,
      (feed s'.unread hk token l).run p s' (Nat.le_refl _) = ⟨.ok .more, p', s₁⟩ →
      (feed' t'.unread hk' token' l').run q t' (Nat.le_refl _) = ⟨.ok .more, q', t₁⟩ → ρ p' q' →
      C.rel (s₁.restoreNames tolerantAfter) (t₁.restoreNames tolerantAfter) →
      s₁.unread + t₁.unread < s.unread + t.unread →
      C.Ends ρ Eq (Reading.scanFrom env mayEnd feed p' (s₁.restoreNames tolerantAfter) hs₁)
        (Reading.scanFrom env mayEnd' feed' q' (t₁.restoreNames tolerantAfter) ht₁)) :
    C.Ends ρ Eq (Reading.scanFrom env mayEnd feed p s hs)
      (Reading.scanFrom env mayEnd' feed' q t ht) :=
  .scan_from_of_turns hpull hpull' htoken htoken'
    (fun hk hk' => .of_answer (hends hk hk') tolerantAfter) hmore

/-- Two scans side by side whose pulls bring the same, up to the tokens that they come to first. -/
theorem Ends.scan_from_of_pulls_alike {hs : s.unread ≤ n} {ht : t.unread ≤ m}
    (hend : mayEnd p = mayEnd' q) (hp : ρ p q)
    (hpulls : PullsAlike C.texts C.At C.rel
      (fun s t => C.broken s ∨ C.stops .source ∧ C.lost s t) (s.pull env) (t.pull env))
    (hpass : ∀ s' t' hs' ht' item item', s.pull env = (item, s') → t.pull env = (item', t') →
      item.IsPassed → C.rel s' t' → s'.unread + t'.unread < s.unread + t.unread →
      C.Ends ρ Eq (Reading.scanFrom env mayEnd feed p s' hs')
        (Reading.scanFrom env mayEnd' feed' q t' ht'))
    (htokens : ∀ s' t' token token' l l' tolerantAfter,
      s.pull env = (.token token l tolerantAfter, s') →
      t.pull env = (.token token' l' tolerantAfter, t') → token.IsOffered → token'.IsOffered →
      token.Alike C.texts token' → C.At token l l' → C.rel s' t' →
      C.Ends ρ Eq (Reading.scanFrom env mayEnd feed p s hs)
        (Reading.scanFrom env mayEnd' feed' q t ht)) :
    C.Ends ρ Eq (Reading.scanFrom env mayEnd feed p s hs)
      (Reading.scanFrom env mayEnd' feed' q t ht) := by
  have hpassBoth {s' t' : Session} {item item' : Item} (hpull : s.pull env = (item, s'))
      (hpull' : t.pull env = (item', t')) (hitem : item.IsPassed) (hitem' : item'.IsPassed)
      (hrel' : C.rel s' t') : C.Ends ρ Eq (Reading.scanFrom env mayEnd feed p s hs)
        (Reading.scanFrom env mayEnd' feed' q t ht) := by
    have hlt := s.unread_lt_of_is_passed hpull hitem
    have hlt' := t.unread_lt_of_is_passed hpull' hitem'
    rw [Reading.scan_from_of_is_passed hpull hitem (by omega),
      Reading.scan_from_of_is_passed hpull' hitem' (by omega)]
    exact hpass s' t' _ _ item item' hpull hpull' hitem hrel' (by omega)
  generalize hpull : s.pull env = pulled at hpulls
  generalize hpull' : t.pull env = pulled' at hpulls
  -- The readers see only the tokens that are offered, so that all else is settled here.
  cases hpulls with
  | blank h => exact hpassBoth hpull hpull' trivial trivial h
  | comment h => exact hpassBoth hpull hpull' trivial trivial h
  | ended h =>
      rw [Reading.scan_from_of_last (Reading.turn_of_ended hpull),
        Reading.scan_from_of_last (Reading.turn_of_ended hpull')]
      exact .finish hend hp h
  | malformed h =>
      have hturn : Reading.turn env mayEnd feed p s hs = _ := Reading.turn_of_malformed hpull
      obtain hbroken | ⟨hstops, hlost⟩ := h
      · exact .broken (Sim.broken_scan_from (hturn ▸ hbroken))
      · rw [Reading.scan_from_of_last hturn,
          Reading.scan_from_of_last (Reading.turn_of_malformed hpull')]
        exact .stopped hstops hp hlost
  | token htoken hplace h =>
      have hoffered := htokens _ _ _ _ _ _ _ hpull hpull'
      cases htoken with
      | endOfText =>
          rw [Reading.scan_from_of_last (Reading.turn_of_end_of_text hpull),
            Reading.scan_from_of_last (Reading.turn_of_end_of_text hpull')]
          exact .finish hend hp h
      | comment text => exact hpassBoth hpull hpull' trivial trivial h
      | int value =>
          exact hoffered (Token.is_offered_int _) (Token.is_offered_int _) (.int value) hplace h
      | float value =>
          exact hoffered (Token.is_offered_float _) (Token.is_offered_float _) (.float value)
            hplace h
      | name hname =>
          exact hoffered (Token.is_offered_name _) (Token.is_offered_name _) (.name hname) hplace h
      | keyword word =>
          exact hoffered (Token.is_offered_keyword _) (Token.is_offered_keyword _) (.keyword word)
            hplace h
      | special sign =>
          exact hoffered (Token.is_offered_special _) (Token.is_offered_special _) (.special sign)
            hplace h

/-- Two scans side by side, up to the tokens that they come to first. The run on the right may pass
over a blank alone. -/
theorem Ends.scan_from_of_pulls {C : ScanCoupling env place} {hs : s.unread ≤ n}
    {ht : t.unread ≤ m} (hend : mayEnd p = mayEnd' q) (hp : ρ p q) (hrel : C.rel s t)
    (hpass : ∀ s' t' hs' ht', s'.unread + t'.unread < s.unread + t.unread →
      (s' = s ∨ ∃ item, s.pull env = (item, s') ∧ item.IsPassed) → C.rel s' t' →
      C.Ends ρ Eq (Reading.scanFrom env mayEnd feed p s' hs')
        (Reading.scanFrom env mayEnd' feed' q t' ht'))
    (htokens : ∀ s' t' token token' l l' tolerantAfter,
      s.pull env = (.token token l tolerantAfter, s') →
      t.pull env = (.token token' l' tolerantAfter, t') → token.IsOffered → token'.IsOffered →
      token.Alike C.texts token' → C.At token l l' → C.rel s' t' →
      C.Ends ρ Eq (Reading.scanFrom env mayEnd feed p s hs)
        (Reading.scanFrom env mayEnd' feed' q t ht)) :
    C.Ends ρ Eq (Reading.scanFrom env mayEnd feed p s hs)
      (Reading.scanFrom env mayEnd' feed' q t ht) := by
  obtain hbroken | hpulls | ⟨t', hblank, h'⟩ := C.pull hrel
  · exact .broken (Sim.broken_scan_from (broken_turn hs hbroken))
  · refine .scan_from_of_pulls_alike hend hp hpulls ?_ htokens
    intro s' t' hs' ht' item item' hpull _ hitem hrel' hlt
    exact hpass s' t' hs' ht' hlt (Or.inr ⟨item, hpull, hitem⟩) hrel'
  · have hlt := t.unread_lt_of_is_passed hblank trivial
    rw [Reading.scan_from_of_is_passed hblank trivial (by omega)]
    exact hpass s t' _ _ (by omega) (Or.inl rfl) h'

/-- Two scans whose readers agree on every token. -/
theorem Sim.scan {C : ScanCoupling env place} (hend : ∀ p q, ρ p q → mayEnd p = mayEnd' q)
    (hfeed : ∀ k hk k' hk' token token' l l', token.Alike C.texts token' → C.At token l l' →
      C.Sim ρ (C.Agrees l l') (feed k hk token l) (feed' k' hk' token' l')) :
    C.Sim ρ Eq (Reading.scan env mayEnd feed) (Reading.scan env mayEnd' feed') := by
  intro p q s t hs ht hp h
  show C.Ends ρ Eq (Reading.scanFrom env mayEnd feed p s hs)
    (Reading.scanFrom env mayEnd' feed' q t ht)
  -- The induction is on what is left to read on both sides, since one may take a turn alone.
  induction hunread : s.unread + t.unread using Nat.strongRecOn generalizing p q s t with
  | ind unread ih =>
      refine .scan_from_of_pulls (hend p q hp) hp h
        (fun s' t' hs' ht' hlt _ h' => ih _ (by omega) p q s' t' hs' ht' hp h' rfl) ?_
      intro s' t' token token' l l' tolerantAfter hpull hpull' hoffered hoffered' htoken hplace h'
      have hends (hk hk') := hfeed s'.unread hk t'.unread hk' token token' l l' htoken hplace p q s'
        t' (Nat.le_refl _) (Nat.le_refl _) hp h'
      refine .scan_from_of_tokens hpull hpull' hoffered hoffered' hends ?_
      intro _ _ p' q' s₁ t₁ hs₁ ht₁ _ _ hp' h₁ hlt
      refine ih _ ?_ p' q' _ _ hs₁ ht₁ hp' h₁ rfl
      rw [Session.unread_restore_names, Session.unread_restore_names]
      omega

end Scan

namespace Sim

variable {l l' : Location}

/-- Two readers that may be started on a token that has been delivered. -/
protected theorem starting {C : ScanCoupling env place}
    {feed : Token → Location → Reading n σ Verdict}
    {feed' : Token → Location → Reading m τ Verdict} {scan : Reading n σ Unit}
    {scan' : Reading m τ Unit} {first first' : Option (Token × Location)}
    (hfirst : Option.Rel (fun a b => a.1.Alike C.texts b.1 ∧ C.At a.1 a.2 b.2) first first')
    (hfeed : ∀ token token' l l', token.Alike C.texts token' → C.At token l l' →
      C.Sim ρ (C.Agrees l l') (feed token l) (feed' token' l'))
    (hscan : C.Sim ρ Eq scan scan') :
    C.Sim ρ Eq (Reading.starting feed scan first) (Reading.starting feed' scan' first') := by
  cases hfirst with
  | none => exact hscan
  | @some a b h =>
      obtain ⟨token, l⟩ := a
      obtain ⟨token', l'⟩ := b
      have hfollow : C.Sim ρ Eq (feed token l >>= Reading.follow scan)
          (feed' token' l' >>= Reading.follow scan') := by
        refine .bind (hfeed token token' l l' h.1 h.2) fun verdict verdict' hverdict => ?_
        cases hverdict with
        | more => exact hscan
        | done | handBack => exact .pure rfl
        | giveUp _ _ hreason => exact .abort hreason
      rw [Reading.starting_some, Reading.starting_some, ← h.1.is_keyword_eq]
      split
      · exact hfollow
      · exact .seq (.redeliver h.1) fun _ => hfollow

theorem skip_rest {C : ScanCoupling env place} :
    C.Sim ρ Eq (Reading.skipRest env : Reading n σ Unit)
      (Reading.skipRest env : Reading m τ Unit) := by
  refine .bind (.nested (R := Eq) rfl (.scan (fun _ _ _ => rfl) ?_)) fun _ _ _ => .pure rfl
  intro k hk k' hk' token token' l l' htoken _
  refine .pure ?_
  by_cases hnewline : token = .special .newline
  · rw [if_pos hnewline, if_pos ((htoken.special_iff _).1 hnewline)]
    exact .done
  · rw [if_neg hnewline, if_neg fun h => hnewline ((htoken.special_iff _).2 h)]
    exact .more

theorem skip_line {C : ScanCoupling env place} :
    C.Sim ρ Eq (Reading.skipLine env : Reading n σ Unit)
      (Reading.skipLine env : Reading m τ Unit) := by
  refine .seq (.look fun _ _ h => (C.lineStart_eq h).symm) fun lineStart => ?_
  cases lineStart with
  | true => exact .pure rfl
  | false => exact skip_rest

theorem recover_line_ends {C : ScanCoupling env place} (hC : C.Recovers) {x : Reading n σ Unit}
    {y : Reading m τ Unit} {p : σ} {q : τ} {s t : Session} {hs : s.unread ≤ n} {ht : t.unread ≤ m}
    (hends : C.Ends ρ Eq (x.run p s hs) (y.run q t ht)) :
    C.Ends ρ Eq ((Reading.recoverLine env x).run p s hs)
      ((Reading.recoverLine env y).run q t ht) := by
  refine bind_ends (attempt_ends hC hends) fun outcome outcome' houtcome => ?_
  cases houtcome with
  | ok _ => exact .pure rfl
  | @error reason hstops =>
      cases reason with
      | source => exact .seq skip_line fun _ => .pure rfl
      | endOfFile => exact .abort hstops
      | internal defect => exact .abort hstops

protected theorem recover_line {C : ScanCoupling env place} (hC : C.Recovers)
    {x : Reading n σ Unit} {y : Reading m τ Unit} (hx : C.Sim ρ Eq x y) :
    C.Sim ρ Eq (Reading.recoverLine env x) (Reading.recoverLine env y) :=
  fun p q s t hs ht hp hrel => recover_line_ends hC (hx p q s t hs ht hp hrel)

end Sim

/-! ### Where errors count as warnings -/

/-- How sessions correspond while errors are downgraded in both runs. -/
structure Tolerates (C : Coupling env place) (C' : ScanCoupling env place) : Prop where
  down : ∀ {s t}, C.rel s t → C'.rel (s.downgrade true) (t.downgrade true)
  up : ∀ {s t s' t'}, C.rel s t → C'.lost s' t' →
    C.rel (s'.downgrade s.log.downgrade) (t'.downgrade t.log.downgrade)
  broken : ∀ {s t s'}, C.rel s t → C'.broken s' → C.broken (s'.downgrade s.log.downgrade)
  stops : ∀ {reason}, reason ≠ .source → C'.stops reason → C.stops reason

/-- The outcomes of two readings agree, where the reading may have stopped for an error that counts
as a warning. -/
inductive Tolerated (C : Coupling env place) {α β : Type} (V : α → β → Prop) :
    Except Abort α → Except Abort β → Prop where
  | ok {a : α} {b : β} (h : V a b) : Tolerated C V (.ok a) (.ok b)
  | source : Tolerated C V (.error .source) (.error .source)
  | error {reason : Abort} (hne : reason ≠ .source) (h : C.stops reason) :
      Tolerated C V (.error reason) (.error reason)

theorem Sim.attempt_downgraded {C' : ScanCoupling env place} (hC : C.Tolerates C')
    (hx : C'.Sim ρ V x y) :
    C.Sim ρ (C.Tolerated V) (Reading.attempt (Reading.downgraded x))
      (Reading.attempt (Reading.downgraded y)) := by
  intro p q s t hs ht hp hrel
  have hends := hx p q (s.downgrade true) (t.downgrade true) hs ht hp (hC.down hrel)
  rw [Reading.run_attempt_downgraded, Reading.run_attempt_downgraded]
  generalize x.run p (s.downgrade true) hs = r at hends ⊢
  generalize y.run q (t.downgrade true) ht = r' at hends ⊢
  cases hends with
  | broken h => exact .broken (hC.broken hrel h)
  | ok ha hq h => exact .ok (.ok ha) hq (hC.up hrel (C'.lost_of_rel h))
  | @stopped reason p' q' s' t' hreason hq h =>
      refine .ok ?_ hq (hC.up hrel h)
      by_cases hne : reason = .source
      · subst hne
        exact .source
      · exact .error hne (hC.stops hne hreason)

/-! ### Errors that put the run out of the comparison -/

namespace Breaks

theorem report (hstrict : C.strict) (problem : Problem) (l : Location) :
    C.Breaks (Reading.report problem l : Reading n σ Unit) :=
  fun _ _ _ _ hrel => C.broken_of_strict hstrict hrel problem l

protected theorem bind (hx : C.Breaks x) : C.Breaks (x >>= f) :=
  fun p s t hs hrel => Sim.broken_bind (hx p s t hs hrel)

theorem set {p : σ} {k : PUnit → Reading n σ γ} (h : C.Breaks (k ⟨⟩)) :
    C.Breaks (set p >>= k) :=
  fun _ s t hs hrel => h p s t hs hrel

theorem warn (problem : Problem) {l l' : Location} (hplace : place l l')
    {k : Unit → Reading n σ γ} (h : C.Breaks (k ())) :
    C.Breaks (Reading.warn problem l >>= k) := by
  intro p s t hs hrel
  obtain hbroken | hrel := C.warning hrel (C.spot_of_place hplace) (.same problem)
  · exact broken_run (k ()) _ hbroken
  · exact h p _ _ _ hrel

theorem refuse (hstrict : C.strict) (token : Token) (l : Location) :
    C.Breaks (Reading.refuse token l : Reading n σ Verdict) :=
  .bind (report hstrict _ l)

end Breaks

end Results

end Coupling

end QuestScript
