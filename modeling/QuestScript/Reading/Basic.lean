import QuestScript.Abort
import QuestScript.Session

/-!
# Reading actions

A reader has a state of its own and works on the shared session. An action of a reader may stop
early; what the reader and the session hold at that moment is kept.

Actions carry two facts. An action in `Reading n` is only run on sessions with at most `n` left to
read, and no action takes back what it found in the session (`Session.Precedes`); in particular
none leaves more to read. So a reader may start another reader of its own kind on what is left
behind a token, and whatever has been recorded stays.
-/

namespace QuestScript

/-- What an action leaves: its outcome, the state of its reader, and the session. -/
structure Result (σ α : Type) where
  outcome : Except Abort α
  reader : σ
  session : Session

/-- An action of a reader with states in `σ` for sessions with at most `n` left to read. -/
structure Reading (n : Nat) (σ α : Type) where
  run : σ → (s : Session) → s.unread ≤ n → Result σ α
  /-- No action takes back what it found. -/
  precedes_run : ∀ p (s : Session) h, s.Precedes (run p s h).session

namespace Reading

variable {n : Nat} {σ τ α β : Type}

/-- No action leaves more to read than it found. -/
theorem unread_run_le (x : Reading n σ α) (p : σ) (s : Session) (h : s.unread ≤ n) :
    (x.run p s h).session.unread ≤ s.unread :=
  (x.precedes_run p s h).unread

/-- Runs an action that is there for every amount of text on the session as it stands. -/
def runOn (x : (n : Nat) → Reading n σ α) (reader : σ) (s : Session) : Result σ α :=
  (x s.unread).run reader s (Nat.le_refl _)

/-- Does nothing. -/
protected def pure (a : α) : Reading n σ α where
  run p s _ := ⟨.ok a, p, s⟩
  precedes_run _ s _ := .refl s

/-- Goes on with the value of an action, unless it stopped early. -/
protected def bind (x : Reading n σ α) (f : α → Reading n σ β) : Reading n σ β where
  run p s h :=
    let r := x.run p s h
    match r.outcome with
    | .ok a => (f a).run r.reader r.session (Nat.le_trans (x.unread_run_le p s h) h)
    | .error abort => ⟨.error abort, r.reader, r.session⟩
  precedes_run p s h := by
    dsimp only
    split
    · exact (x.precedes_run p s h).trans ((f _).precedes_run _ _ _)
    · exact x.precedes_run p s h

instance : Monad (Reading n σ) where
  pure := Reading.pure
  bind := Reading.bind

/-- The state of the reader can be read and changed. -/
instance : MonadStateOf σ (Reading n σ) where
  get := ⟨fun p s _ => ⟨.ok p, p, s⟩, fun _ s _ => .refl s⟩
  set q := ⟨fun _ s _ => ⟨.ok (), q, s⟩, fun _ s _ => .refl s⟩
  modifyGet f := ⟨fun p s _ => ⟨.ok (f p).1, (f p).2, s⟩, fun _ s _ => .refl s⟩

/-- Stops early. -/
def abort (reason : Abort) : Reading n σ α where
  run p s _ := ⟨.error reason, p, s⟩
  precedes_run _ s _ := .refl s

/-- The value of an outcome, or the reason to stop. -/
def ofOutcome : Except Abort α → Reading n σ α
  | .ok a => pure a
  | .error reason => abort reason

/-- The outcome of an action, which may have stopped early. -/
def attempt (x : Reading n σ α) : Reading n σ (Except Abort α) where
  run p s h :=
    let r := x.run p s h
    ⟨.ok r.outcome, r.reader, r.session⟩
  precedes_run := x.precedes_run

/-- Runs an action of another reader. Its outcome and the state of that reader are the value. -/
def within (reader : τ) (x : Reading n τ α) : Reading n σ (Except Abort α × τ) where
  run p s h :=
    let r := x.run reader s h
    ⟨.ok (r.outcome, r.reader), p, r.session⟩
  precedes_run _ s h := x.precedes_run reader s h

/-- Runs an action of another reader; if that stops early, so does this. -/
def nested (reader : τ) (x : Reading n τ α) : Reading n σ (α × τ) := do
  let (outcome, reader) ← within reader x
  let a ← ofOutcome outcome
  pure (a, reader)

/-- Looks at the session. -/
def look (f : Session → α) : Reading n σ α where
  run p s _ := ⟨.ok (f s), p, s⟩
  precedes_run _ s _ := .refl s

/-- Declares a local variable. -/
def declare (type : ValueType) (name : String) : Reading n σ Unit where
  run p s _ := ⟨.ok (), p, { s with locals := s.locals.declare type name }⟩
  precedes_run _ s _ :=
    ⟨Nat.le_refl _, .refl _, s.locals.within_declare type name, List.prefix_refl _, .refl _⟩

/-- Changes the scanner's modes. -/
def modifyModes (change : Modes → Modes) : Reading n σ Unit where
  run p s _ := ⟨.ok (), p, s.mapModes change⟩
  precedes_run _ s _ := s.precedes_map_modes change

/-- Makes something that needs literals, which are added to those that are there. -/
def withLiterals (make : Literals → α × Literals)
    (within : ∀ pool : Literals, pool.Within (make pool).2 := by simp) : Reading n σ α where
  run p s _ := ⟨.ok (make s.literals).1, p, { s with literals := (make s.literals).2 }⟩
  precedes_run _ s _ := ⟨Nat.le_refl _, within s.literals, .refl _, List.prefix_refl _, .refl _⟩

/-- Delivers a token once more, as if it had been put back and pulled. -/
def redeliver (token : Token) : Reading n σ Unit where
  run p s _ := ⟨.ok (), p, s.redeliver token⟩
  precedes_run _ s _ := s.precedes_redeliver token

/-- Reports a warning. -/
def warn (problem : Problem) (location : Location) : Reading n σ Unit where
  run p s _ := ⟨.ok (), p, { s with log := s.log.warning problem.message location }⟩
  precedes_run _ s _ := s.precedes_of_log (s.log.precedes_warning _ _)

/-- Reports an error and goes on. -/
def report (problem : Problem) (location : Location) : Reading n σ Unit where
  run p s _ := ⟨.ok (), p, { s with log := s.log.error problem.message location }⟩
  precedes_run _ s _ := s.precedes_of_log (s.log.precedes_error _ _)

/-- Reports an error and stops. -/
def fail (problem : Problem) (location : Location) : Reading n σ α := do
  report problem location
  abort .source

/-- The value of a computation; a defect stops the reading. -/
def ofDefect : Except Defect α → Reading n σ α
  | .ok a => pure a
  | .error defect => abort (.internal defect)

/-- Runs an action while errors count as warnings. -/
def downgraded (x : Reading n σ α) : Reading n σ α where
  run p s h :=
    let r := x.run p { s with log := { s.log with downgrade := true } } h
    { r with
      session := { r.session with
        log := { r.session.log with downgrade := s.log.downgrade } } }
  precedes_run p s h :=
    have hx := x.precedes_run p { s with log := { s.log with downgrade := true } } h
    ⟨hx.unread, hx.literals, hx.locals, hx.replaced, hx.log.errors, rfl, hx.log.mode,
      hx.log.label, hx.log.entries⟩

end Reading

end QuestScript
