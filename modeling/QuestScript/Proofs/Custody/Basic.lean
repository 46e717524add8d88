import QuestScript.Proofs.Coupling.Basic
import QuestScript.Proofs.Defects
import QuestScript.Proofs.LocalAccess

/-!
# The custody of tokens

A token that the scanner has delivered is in the hands of the reader it was offered to, until the
reader takes it or gives it back. A `Custody` is what is known about the session while a token is in
hand and while none is. A pull brings a token into hand, and to give it back leads to the next pull.
A custody also says which local variables the code may access that is made on the way, and which
defects may be met.

`Custody.Keeps` says what an action leaves that is started with or without a token in hand. There is
a rule for each basic action, and `Custody.Keeps.scan` is the rule for scans. What follows from them
for the readers of the language holds for every custody.
-/

namespace QuestScript

/-- What is known about the session while a script is read. -/
structure Custody (env : Environment) where
  /-- What is known while a token is in hand, or while none is. -/
  holds : Bool → Session → Prop
  /-- Nothing is said about the run any more. -/
  broken : Session → Prop
  /-- Something is said about the code. -/
  tracked : Prop
  /-- The local variables that code may access. -/
  allowed : ValueType → Nat → Prop
  /-- The defects that may be met. -/
  defects : Defect → Prop
  /-- Only the token that waits, the tokens that got lost and the local variables matter. -/
  congr : ∀ {held s t}, holds held s → t.scanner.pending = s.scanner.pending →
    t.scanner.replaced = s.scanner.replaced → t.locals = s.locals → holds held t
  broken_congr : ∀ {s t}, broken s → t.locals = s.locals → broken t
  broken_of_precedes : ∀ {s t}, broken s → s.Precedes t → broken t
  /-- A token in hand may be taken. -/
  release : ∀ {held s}, holds held s → holds false s
  pull : ∀ {s}, holds false s → holds true (s.pull env).2
  /-- A token in hand may be given back. -/
  putBack : ∀ {s}, holds true s → ∀ token l, holds false (s.putBack token l)
  redeliver : ∀ {s}, holds true s → ∀ token, holds true (s.redeliver token)
  declare : ∀ {held s name} type, holds held s → s.locals.typeOf? (Text.toLower name) = none →
    broken { s with locals := s.locals.declare type (Text.toLower name) } ∨
      holds held { s with locals := s.locals.declare type (Text.toLower name) }
  allowed_of_holds : ∀ {held s name type}, holds held s → s.locals.typeOf? name = some type →
    allowed type ((s.locals.indexOf? name).getD 0)
  /-- Something is said about the code only if the registry has been built entry by entry. -/
  built : tracked → env.extensions.Built
  /-- Some defects are ruled out only if the host observes what it has to. -/
  regular : env.extensions.Regular ∨ ∀ defect, defects defect

namespace Custody

/-- Where every defect may be met, nothing is asked of the host. -/
theorem regular_or_all {env : Environment} : env.extensions.Regular ∨ ∀ _ : Defect, True :=
  Or.inr fun _ => trivial

theorem built_of_untracked {env : Environment} (h : False) : env.extensions.Built :=
  h.elim

variable {env : Environment} (C : Custody env) {n : Nat} {σ τ α β : Type} {p q : σ}
  {held held' : Bool} {err : σ → Bool → Prop}

/-! ### Code -/

/-- The code accesses only local variables that it may access. -/
def Codes (code : Code) : Prop :=
  C.tracked → AccessesOnly C.allowed code

variable {C}

namespace Codes

variable {code rest : Code}

theorem nil : C.Codes [] :=
  fun _ => .nil

/-- Code without local variables is in order. -/
theorem of_plain (h : Plain code) : C.Codes code :=
  fun _ => .of_plain h

theorem append (hcode : C.Codes code) (hrest : C.Codes rest) : C.Codes (code ++ rest) :=
  fun htracked => (hcode htracked).append (hrest htracked)

theorem flatten {parts : List Code} (h : ∀ part ∈ parts, C.Codes part) : C.Codes parts.flatten :=
  fun htracked => .flatten fun part hpart => h part hpart htracked

/-- The host's own operations access no local variables. -/
theorem of_call {extension : Extension} {code : Int}
    (h : env.extensions.function? code = some extension ∨
      env.extensions.instruction? code = some extension)
    (id : String) (optionals : Nat) (pool : Literals) :
    C.Codes (extension.call id optionals pool).1.code :=
  fun htracked => .of_plain ((C.built htracked).plain_call h id optionals pool)

end Codes

/-- A call of the host meets no defect but those that may be met, if an object stands only in front
of entries that take one. -/
theorem defects_of_call {extension : Extension} {code : Int} {id : String} {optionals : Nat}
    (h : env.extensions.function? code = some extension ∨
      env.extensions.instruction? code = some extension)
    (hle : optionals ≤ (Signature.behindStroke extension.arguments.toList).length)
    (hid : id ≠ "" → extension.hasExplicit = true) (pool : Literals) (defect : Defect)
    (herror : (extension.call id optionals pool).1.toExcept = .error defect) :
    C.defects defect := by
  obtain hregular | hall := C.regular
  · rw [Extension.to_except_call (hregular code extension h) hle hid] at herror
    cases herror
  · exact hall defect

/-! ### What an action leaves -/

variable (C)

/-- What an action leaves: it is known whether a token is in hand, also behind a reported error,
unless nothing is said about the run any more. -/
inductive Leaves (post : α → σ → Bool → Prop) (err : σ → Bool → Prop) : Result σ α → Prop where
  | broken {r : Result σ α} (h : C.broken r.session) : Leaves post err r
  | ok {a : α} {q : σ} {s : Session} {held : Bool} (ha : post a q held) (h : C.holds held s) :
      Leaves post err ⟨.ok a, q, s⟩
  | source {q : σ} {s : Session} {held : Bool} (hq : err q held) (h : C.holds held s) :
      Leaves post err ⟨.error .source, q, s⟩
  | stopped {reason : Abort} {q : σ} {s : Session} (hsource : reason ≠ .source)
      (hreason : reason.IsAmong C.defects) (h : C.holds false s) :
      Leaves post err ⟨.error reason, q, s⟩

/-- Behind a reported error nothing is asked of the reader. -/
abbrev Anyhow (_ : σ) (_ : Bool) : Prop :=
  True

/-- Behind a reported error the token is still in hand. -/
abbrev StillHeld (_ : σ) (held : Bool) : Prop :=
  held = true

/-- What is known behind the action fits its value and the state of the reader. -/
def Keeps (x : Reading n σ α) (p : σ) (held : Bool) (post : α → σ → Bool → Prop)
    (err : σ → Bool → Prop := Anyhow) : Prop :=
  ∀ s h, C.holds held s → C.Leaves post err (x.run p s h)

variable {C}

theorem broken_run (x : Reading n σ α) {s : Session} (hs : s.unread ≤ n) (h : C.broken s) :
    C.broken (x.run p s hs).session :=
  C.broken_of_precedes h (x.precedes_run p s hs)

/-- The modes of the scanner do not matter. -/
theorem holds_restore_names {s : Session} (h : C.holds held s) (tolerantAfter : Option Bool) :
    C.holds held (s.restoreNames tolerantAfter) := by
  cases tolerantAfter with
  | none => exact h
  | some setting => exact C.congr h rfl rfl rfl

namespace Keeps

variable {x : Reading n σ α} {f : α → Reading n σ β} {post : β → σ → Bool → Prop}
  {mid : α → σ → Bool → Prop}

/-! ### Rules for basic actions -/

/-- What is known in the end may be put in other words. -/
theorem imp {post post' : α → σ → Bool → Prop} {err' : σ → Bool → Prop}
    (hx : C.Keeps x p held post err) (hpost : ∀ a q held, post a q held → post' a q held)
    (herr : ∀ q held, err q held → err' q held) : C.Keeps x p held post' err' := by
  intro s hs hholds
  have hleaves := hx s hs hholds
  generalize x.run p s hs = r at hleaves
  cases hleaves with
  | broken hbroken => exact .broken hbroken
  | ok ha ht => exact .ok (hpost _ _ _ ha) ht
  | source hq ht => exact .source (herr _ _ hq) ht
  | stopped hsource hreason ht => exact .stopped hsource hreason ht

/-- The token in hand is taken first. -/
theorem release {post : α → σ → Bool → Prop} (hx : C.Keeps x p false post err) :
    C.Keeps x p held post err :=
  fun s hs hholds => hx s hs (C.release hholds)

protected theorem pure {post : α → σ → Bool → Prop} {a : α} (h : post a p held) :
    C.Keeps (pure a : Reading n σ α) p held post err :=
  fun _ _ hholds => .ok h hholds

protected theorem bind (hx : C.Keeps x p held mid err)
    (hf : ∀ a q held', mid a q held' → C.Keeps (f a) q held' post err) :
    C.Keeps (x >>= f) p held post err := by
  intro s hs hholds
  have hle := x.unread_run_le p s hs
  have hleaves := hx s hs hholds
  generalize hrun : x.run p s hs = r at hleaves hle
  cases hleaves with
  | broken hbroken =>
      rcases r with ⟨reason | a, q, t⟩
      · rw [Reading.run_bind_of_error hrun]
        exact .broken hbroken
      · rw [Reading.run_bind_of_ok hrun (Nat.le_trans hle hs)]
        exact .broken (broken_run _ _ hbroken)
  | ok ha ht =>
      rw [Reading.run_bind_of_ok hrun (Nat.le_trans hle hs)]
      exact hf _ _ _ ha _ _ ht
  | source hq ht =>
      rw [Reading.run_bind_of_error hrun]
      exact .source hq ht
  | stopped hsource hreason ht =>
      rw [Reading.run_bind_of_error hrun]
      exact .stopped hsource hreason ht

protected theorem map {f : α → β} (h : C.Keeps x p held (fun a q held' => post (f a) q held') err) :
    C.Keeps (f <$> x) p held post err := by
  rw [map_eq_pure_bind]
  exact h.bind fun _ _ _ hpost => .pure hpost

variable {k : PUnit → Reading n σ β}

protected theorem get {f : σ → Reading n σ β} (h : C.Keeps (f p) p held post err) :
    C.Keeps (get >>= f) p held post err :=
  h

protected theorem set (h : C.Keeps (k ⟨⟩) q held post err) :
    C.Keeps (set q >>= k) p held post err :=
  h

protected theorem modify {change : σ → σ} (h : C.Keeps (k ⟨⟩) (change p) held post err) :
    C.Keeps (modify change >>= k) p held post err :=
  h

/-- A last change of the reader's state. -/
theorem modified {change : σ → σ} {post : PUnit → σ → Bool → Prop}
    (h : post ⟨⟩ (change p) held) :
    C.Keeps (modify change : Reading n σ PUnit) p held post err :=
  fun _ _ hholds => .ok h hholds

/-- An action that succeeds and leaves the reader alone. -/
theorem step {view : Session → α} {next : Session → Session}
    (hrun : ∀ (s : Session) hs, x.run p s hs = ⟨.ok (view s), p, next s⟩)
    (hnext : ∀ s, C.holds held s → C.holds held (next s))
    (hf : ∀ s, C.holds held s → C.Keeps (f (view s)) p held post err) :
    C.Keeps (x >>= f) p held post err := by
  intro s hs hholds
  have hle := x.unread_run_le p s hs
  rw [hrun] at hle
  rw [Reading.run_bind_of_ok (hrun s hs) (Nat.le_trans hle hs)]
  exact hf s hholds _ _ (hnext s hholds)

protected theorem look {view : Session → α}
    (h : ∀ s, C.holds held s → C.Keeps (f (view s)) p held post err) :
    C.Keeps (Reading.look view >>= f) p held post err :=
  step (fun _ _ => rfl) (fun _ => id) h

theorem with_literals {make : Literals → α × Literals}
    {within : ∀ pool : Literals, pool.Within (make pool).2}
    (h : ∀ pool, C.Keeps (f (make pool).1) p held post err) :
    C.Keeps (Reading.withLiterals make within >>= f) p held post err :=
  step (fun _ _ => rfl) (fun _ hholds => C.congr hholds rfl rfl rfl) fun s _ => h s.literals

protected theorem warn {problem : Problem} {location : Location}
    (h : C.Keeps (k ⟨⟩) p held post err) :
    C.Keeps (Reading.warn problem location >>= k) p held post err :=
  step (fun _ _ => rfl) (fun _ hholds => C.congr hholds rfl rfl rfl) fun _ _ => h

protected theorem report {problem : Problem} {location : Location}
    (h : C.Keeps (k ⟨⟩) p held post err) :
    C.Keeps (Reading.report problem location >>= k) p held post err :=
  step (fun _ _ => rfl) (fun _ hholds => C.congr hholds rfl rfl rfl) fun _ _ => h

theorem modify_modes {change : Modes → Modes} (h : C.Keeps (k ⟨⟩) p held post err) :
    C.Keeps (Reading.modifyModes change >>= k) p held post err :=
  step (fun _ _ => rfl) (fun _ hholds => C.congr hholds rfl rfl rfl) fun _ _ => h

protected theorem redeliver {token : Token} (h : C.Keeps (k ⟨⟩) p true post err) :
    C.Keeps (Reading.redeliver token >>= k) p true post err :=
  step (fun _ _ => rfl) (fun _ hholds => C.redeliver hholds token) fun _ _ => h

/-- A reason to stop that is no defect, or one of those that may be met. -/
protected theorem abort {reason : Abort} {post : α → σ → Bool → Prop}
    (hreason : reason.IsAmong C.defects) (herr : err p held) :
    C.Keeps (Reading.abort reason : Reading n σ α) p held post err := by
  intro s hs hholds
  by_cases hsource : reason = .source
  · subst hsource
    exact .source herr hholds
  · exact .stopped hsource hreason (C.release hholds)

protected theorem fail {problem : Problem} {location : Location} {post : α → σ → Bool → Prop}
    (herr : err p held) :
    C.Keeps (Reading.fail problem location : Reading n σ α) p held post err :=
  .report (.abort trivial herr)

protected theorem refuse {token : Token} {location : Location}
    {post : Verdict → σ → Bool → Prop} :
    C.Keeps (Reading.refuse token location : Reading n σ Verdict) p held post :=
  .fail trivial

/-- A computation that meets no defect but those that may be met. -/
theorem of_defect {outcome : Except Defect α}
    (herror : ∀ defect, outcome = .error defect → C.defects defect) (herr : err p held)
    (h : ∀ a, outcome = .ok a → C.Keeps (f a) p held post err) :
    C.Keeps (Reading.ofDefect outcome >>= f) p held post err := by
  cases outcome with
  | ok a => exact h a rfl
  | error defect =>
      have hstops : C.Keeps (Reading.abort (.internal defect) : Reading n σ α) p held
          (fun _ _ _ => False) err := .abort (herror defect rfl) herr
      exact hstops.bind fun _ _ _ hfalse => hfalse.elim

/-- A computation that meets no defect. -/
theorem of_ok {outcome : Except Defect α} {a : α} (hok : outcome = .ok a)
    (h : C.Keeps (f a) p held post err) :
    C.Keeps (Reading.ofDefect outcome >>= f) p held post err := by
  subst hok
  exact h

/-! ### Other readers -/

section Other

variable {y : Reading n τ α} {reader : τ} {inner : α → τ → Bool → Prop}
  {err' : τ → Bool → Prop}

/-- Another reader runs, and what becomes of its errors is decided later. -/
protected theorem within {k : Except Abort α × τ → Reading n σ β}
    (hy : C.Keeps y reader held inner err')
    (hok : ∀ a q held', inner a q held' → C.Keeps (k (.ok a, q)) p held' post err)
    (hsource : ∀ q held', err' q held' → C.Keeps (k (.error .source, q)) p held' post err)
    (hstopped : ∀ reason q, reason ≠ .source → reason.IsAmong C.defects →
      (∃ s hs, (y.run reader s hs).outcome = .error reason) →
      C.Keeps (k (.error reason, q)) p false post err) :
    C.Keeps (Reading.within reader y >>= k) p held post err := by
  intro s hs hholds
  have hle := y.unread_run_le reader s hs
  have hleaves := hy s hs hholds
  rcases hrun : y.run reader s hs with ⟨outcome, q, t⟩
  rw [hrun] at hleaves hle
  have hwithin : (Reading.within reader y : Reading n σ _).run p s hs =
      ⟨.ok (outcome, q), p, t⟩ := by
    simp only [Reading.within, hrun]
  rw [Reading.run_bind_of_ok hwithin (Nat.le_trans hle hs)]
  cases hleaves with
  | broken hbroken => exact .broken (broken_run _ _ hbroken)
  | ok ha ht => exact hok _ q _ ha t _ ht
  | source hq ht => exact hsource q _ hq t _ ht
  | stopped hreason hamong ht =>
      exact hstopped _ q hreason hamong ⟨s, hs, congrArg Result.outcome hrun⟩ t _ ht

/-- Another reader runs, and its errors stop this one. -/
protected theorem nested {k : α × τ → Reading n σ β} (hy : C.Keeps y reader held inner)
    (herr : ∀ held', err p held')
    (hk : ∀ a q held', inner a q held' → C.Keeps (k (a, q)) p held' post err) :
    C.Keeps (Reading.nested reader y >>= k) p held post err := by
  rw [Reading.nested, bind_assoc]
  exact .within hy (fun a q held' ha => hk a q held' ha)
    (fun _ held' _ _ _ hholds => .source (herr held') hholds)
    fun _ _ hsource hreason _ _ _ hholds => .stopped hsource hreason hholds

end Other

protected theorem attempt {k : Except Abort α → Reading n σ β} {err' : σ → Bool → Prop}
    (hx : C.Keeps x p held mid err')
    (hok : ∀ a q held', mid a q held' → C.Keeps (k (.ok a)) q held' post err)
    (hsource : ∀ q held', err' q held' → C.Keeps (k (.error .source)) q held' post err)
    (hstopped : ∀ reason q, reason ≠ .source → reason.IsAmong C.defects →
      C.Keeps (k (.error reason)) q false post err) :
    C.Keeps (Reading.attempt x >>= k) p held post err := by
  intro s hs hholds
  have hle := x.unread_run_le p s hs
  have hleaves := hx s hs hholds
  rcases hrun : x.run p s hs with ⟨outcome, q, t⟩
  rw [hrun] at hleaves hle
  rw [Reading.run_bind_of_ok (Reading.run_attempt hrun) (Nat.le_trans hle hs)]
  cases hleaves with
  | broken hbroken => exact .broken (broken_run _ _ hbroken)
  | ok ha ht => exact hok _ _ _ ha t _ ht
  | source hq ht => exact hsource _ _ hq t _ ht
  | stopped hsource hreason ht => exact hstopped _ q hsource hreason t _ ht

/-- How errors are counted does not matter. -/
protected theorem downgraded {post : α → σ → Bool → Prop} (hx : C.Keeps x p held post err) :
    C.Keeps (Reading.downgraded x) p held post err := by
  intro s hs hholds
  have hleaves := hx (s.downgrade true) hs (C.congr hholds rfl rfl rfl)
  rcases hrun : x.run p (s.downgrade true) hs with ⟨outcome, q, t⟩
  have hdowngraded : (Reading.downgraded x).run p s hs =
      ⟨outcome, q, t.downgrade s.log.downgrade⟩ := by
    show (⟨(x.run p (s.downgrade true) hs).outcome, (x.run p (s.downgrade true) hs).reader,
      (x.run p (s.downgrade true) hs).session.downgrade s.log.downgrade⟩ : Result σ α) = _
    rw [hrun]
  rw [hrun] at hleaves
  rw [hdowngraded]
  cases hleaves with
  | broken hbroken => exact .broken (C.broken_congr hbroken rfl)
  | ok ha ht => exact .ok ha (C.congr ht rfl rfl rfl)
  | source hq ht => exact .source hq (C.congr ht rfl rfl rfl)
  | stopped hsource hreason ht => exact .stopped hsource hreason (C.congr ht rfl rfl rfl)

end Keeps

/-! ### Scans -/

variable (C)

/-- The answer of a reader to the token in hand: it wants more, it has done what it should, or it
gives the token back, perhaps as another token. -/
def Answers (inv done : σ → Prop) (verdict : Verdict) (q : σ) (held : Bool) : Prop :=
  match verdict with
  | .more => inv q
  | .done => done q
  | .handBack _ => held = true ∧ done q
  | .giveUp _ reason => held = true ∧ reason.IsAmong C.defects

/-- The answer of a reader that pulls nothing: the token stays in hand. -/
def Considers (ok : σ → Prop) (verdict : Verdict) (q : σ) (held : Bool) : Prop :=
  ok q ∧ held = true ∧ (verdict = .more ∨ ∃ back, verdict = .handBack back)

/-- What a turn of a scan leaves. -/
def TurnLeaves (inv done : σ → Prop) : Reading.Turn σ → Prop
  | .last r => C.Leaves (fun _ q _ => done q) Anyhow r
  | .again q s => C.broken s ∨ inv q ∧ C.holds false s

variable {C}

section Scan

variable {inv done ok : σ → Prop} {mayEnd : σ → Bool} {s : Session} {token : Token} {l : Location}
  {feed : (m : Nat) → m < n → Token → Location → Reading m σ Verdict}

theorem Considers.answers {verdict : Verdict} (h : Considers ok verdict q held) :
    C.Answers ok ok verdict q held := by
  obtain ⟨hq, hheld, rfl | ⟨back, rfl⟩⟩ := h
  · exact hq
  · exact ⟨hheld, hq⟩

/-- A reader that pulls nothing answers the token. -/
theorem Keeps.answers {x : Reading n σ Verdict} (hx : C.Keeps x p held (Considers ok)) :
    C.Keeps x p held (C.Answers ok ok) :=
  hx.imp (fun _ _ _ h => h.answers) fun _ _ h => h

theorem TurnLeaves.of_broken {r : Result σ Verdict} (h : C.broken r.session) (l : Location)
    (tolerantAfter : Option Bool) : C.TurnLeaves inv done (.ofAnswer l tolerantAfter r) := by
  have hafter := C.broken_of_precedes h (r.session.precedes_restore_names tolerantAfter)
  rcases r with ⟨_ | verdict, p, s⟩
  · exact .broken hafter
  · cases verdict with
    | more => exact Or.inl hafter
    | done => exact .broken hafter
    | handBack back | giveUp back reason => exact .broken (C.broken_congr hafter rfl)

/-- The answer to a token makes a turn. -/
theorem TurnLeaves.of_answer {r : Result σ Verdict} (hr : C.Leaves (C.Answers inv done) Anyhow r)
    (l : Location) (tolerantAfter : Option Bool) :
    C.TurnLeaves inv done (.ofAnswer l tolerantAfter r) := by
  cases hr with
  | broken h => exact .of_broken h l tolerantAfter
  | source hq h => exact .source hq (holds_restore_names h tolerantAfter)
  | stopped hsource hreason h =>
      exact .stopped hsource hreason (holds_restore_names h tolerantAfter)
  | @ok verdict q t held ha h =>
      have hafter := holds_restore_names h tolerantAfter
      cases verdict with
      | more => exact Or.inr ⟨ha, C.release hafter⟩
      | done => exact .ok ha hafter
      | handBack back =>
          obtain ⟨rfl, hdone⟩ := ha
          exact .ok hdone (C.putBack hafter back l)
      | giveUp back reason =>
          obtain ⟨rfl, hreason⟩ := ha
          have hgiven := C.putBack hafter back l
          by_cases hsource : reason = .source
          · subst hsource
            exact .source trivial hgiven
          · exact .stopped hsource hreason hgiven

theorem Leaves.finish (hend : mayEnd p = true → done p) (h : C.holds held s) :
    C.Leaves (fun _ q _ => done q) Anyhow (Reading.finish mayEnd p s) := by
  unfold Reading.finish
  split
  next hmay => exact .ok (hend hmay) h
  next => exact .stopped (by rintro ⟨⟩) trivial (C.release (C.congr h rfl rfl rfl))

/-- One turn of a scan. -/
theorem TurnLeaves.turn (hend : mayEnd p = true → done p)
    (hfeed : ∀ m hm token l, C.Keeps (feed m hm token l) p true (C.Answers inv done))
    (hp : inv p) (hs : s.unread ≤ n) (h : C.holds false s) :
    C.TurnLeaves inv done (Reading.turn env mayEnd feed p s hs) := by
  have hpulled := C.pull h
  unfold Reading.turn
  split
  all_goals rename_i hpull; rw [hpull] at hpulled
  · exact .finish hend hpulled
  · exact Or.inr ⟨hp, C.release hpulled⟩
  · exact .source trivial (C.congr hpulled rfl rfl rfl)
  · exact .finish hend hpulled
  · exact Or.inr ⟨hp, C.release hpulled⟩
  · exact .of_answer (hfeed _ _ _ _ _ _ hpulled) _ _

/-- The rule for scans: what is asked of the reader before each token holds again behind it. -/
theorem Keeps.scan (inv : σ → Prop) (hend : ∀ p, inv p → mayEnd p = true → done p)
    (hfeed : ∀ m hm p token l, inv p → C.Keeps (feed m hm token l) p true (C.Answers inv done))
    (hp : inv p) :
    C.Keeps (Reading.scan env mayEnd feed) p held fun _ q _ => done q := by
  refine .release fun s hs hholds => ?_
  show C.Leaves _ Anyhow (Reading.scanFrom env mayEnd feed p s hs)
  -- The induction is on what is left to read.
  induction hunread : s.unread using Nat.strongRecOn generalizing p s with
  | ind unread ih =>
      have hturn : C.TurnLeaves inv done (Reading.turn env mayEnd feed p s hs) :=
        .turn (hend p hp) (fun m hm token l => hfeed m hm p token l hp) hp hs hholds
      cases heq : Reading.turn env mayEnd feed p s hs with
      | last r =>
          rw [heq] at hturn
          rw [Reading.scan_from_of_last heq]
          exact hturn
      | again q t =>
          have hlt := Reading.unread_lt_of_turn heq
          rw [heq] at hturn
          rw [Reading.scan_from_of_again heq (by omega)]
          obtain hbroken | ⟨hq, ht⟩ := hturn
          · exact .broken (C.broken_of_precedes hbroken (Reading.precedes_scan_from _ _ _ _ _ _))
          · exact ih t.unread (hunread ▸ hlt) hq t _ ht rfl

namespace Keeps

/-- A reader may be started on a token that has been delivered. -/
protected theorem starting {feed : Token → Location → Reading n σ Verdict}
    {scan : Reading n σ Unit} (hfeed : C.Keeps (feed token l) p true (C.Answers inv done))
    (hscan : ∀ q, inv q → C.Keeps scan q false fun _ q _ => done q) :
    C.Keeps (Reading.starting feed scan (some (token, l))) p true fun _ q _ => done q := by
  have hfollow : C.Keeps (feed token l >>= Reading.follow scan) p true fun _ q _ => done q := by
    refine hfeed.bind fun verdict q held hverdict => ?_
    cases verdict with
    | more => exact .release (hscan q hverdict)
    | done => exact .pure hverdict
    | handBack back => exact .pure hverdict.2
    | giveUp back reason => exact .abort hverdict.2 trivial
  rw [Reading.starting_some]
  split
  · exact hfollow
  · exact .redeliver hfollow

/-- Passes over the line. -/
theorem skip_rest :
    C.Keeps (Reading.skipRest env : Reading n σ Unit) p held fun _ q _ => q = p := by
  have hscan : C.Keeps (Reading.scan env (fun _ => true) fun _ _ token _ =>
      pure (if token = .special .newline then .done else .more) : Reading n Unit Unit) ()
      held fun _ _ _ => True := by
    refine .scan (fun _ => True) (fun _ _ _ => trivial) (fun _ _ _ _ _ _ => .pure ?_) trivial
    split <;> trivial
  exact .nested hscan (fun _ => trivial) fun _ _ _ _ => .pure rfl

theorem skip_line :
    C.Keeps (Reading.skipLine env : Reading n σ Unit) p held fun _ q _ => q = p := by
  refine .look fun s _ => ?_
  cases s.scanner.lineStart with
  | true => exact .pure rfl
  | false => exact skip_rest

/-- Confines a reported error to its line. -/
theorem recover_line {x : Reading n σ Unit} (hx : C.Keeps x p held fun _ q _ => done q) :
    C.Keeps (Reading.recoverLine env x) p held fun read q _ => read = true → done q := by
  refine .attempt hx (fun _ q _ hq => .pure fun _ => hq) (fun q _ _ => ?_)
    fun reason q hsource hreason => ?_
  · exact skip_line.bind fun _ _ _ _ => .pure (by rintro ⟨⟩)
  · cases reason with
    | source => exact absurd rfl hsource
    | endOfFile | internal defect => exact .abort hreason trivial

/-- A token that nobody can use may be handed back where nothing has to be read. -/
theorem refuse_optional {progress : Progress} (hp : done p) :
    C.Keeps (progress.refuse token l : Reading n σ Verdict) p true (C.Answers inv done) := by
  unfold Progress.refuse
  split
  · exact .pure ⟨rfl, hp⟩
  · exact .refuse

end Keeps

end Scan

/-! ### Defects alone -/

/-- Nothing is known about the session. -/
def ofDefects (env : Environment) (defects : Defect → Prop)
    (h : env.extensions.Regular ∨ ∀ defect, defects defect) : Custody env where
  holds _ _ := True
  broken _ := False
  tracked := False
  allowed _ _ := True
  defects := defects
  congr _ _ _ _ := trivial
  broken_congr h _ := h
  broken_of_precedes h _ := h
  release _ := trivial
  pull _ := trivial
  putBack _ _ _ := trivial
  redeliver _ _ := trivial
  declare _ _ _ := Or.inr trivial
  allowed_of_holds _ _ := trivial
  built h := built_of_untracked h
  regular := h

theorem codes_of_defects {defects : Defect → Prop}
    {h : env.extensions.Regular ∨ ∀ defect, defects defect} {code : Code} :
    (ofDefects env defects h).Codes code :=
  False.elim

/-- An action meets no defects but those that may be met. -/
theorem Keeps.meets_only {defects : Defect → Prop}
    {h : env.extensions.Regular ∨ ∀ defect, defects defect} {x : Reading n σ α}
    {post : α → σ → Bool → Prop} (hx : (ofDefects env defects h).Keeps x p held post err) :
    Reading.MeetsOnly defects x p fun a q => ∃ held, post a q held := by
  intro s hs
  have hleaves := hx s hs trivial
  generalize x.run p s hs = r at hleaves
  cases hleaves with
  | broken hbroken => exact hbroken.elim
  | ok ha _ => exact ⟨_, ha⟩
  | source _ _ => trivial
  | stopped _ hreason _ => exact hreason

/-- The same for the answer of a reader to a token. -/
theorem Keeps.meets_only_answers {defects : Defect → Prop}
    {h : env.extensions.Regular ∨ ∀ defect, defects defect} {x : Reading n σ Verdict}
    {inv done : σ → Prop}
    (hx : (ofDefects env defects h).Keeps x p held ((ofDefects env defects h).Answers inv done)) :
    Reading.MeetsOnly defects x p (Reading.MeetsOnly.Answers defects inv fun _ => True) := by
  refine hx.meets_only.imp fun verdict q hverdict => ?_
  obtain ⟨held, hverdict⟩ := hverdict
  cases verdict with
  | more => exact hverdict
  | done | handBack => trivial
  | giveUp => exact ⟨hverdict.2, trivial⟩

end Custody

end QuestScript
