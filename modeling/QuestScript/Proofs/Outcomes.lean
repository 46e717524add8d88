import QuestScript.Proofs.Reading

/-!
# What actions come to

Which defects an action can meet at all, and what it leaves where it succeeds, does not depend on
the session, so that `Reading.MeetsOnly` speaks about every session, also about those in which
errors have been reported: a reader that went on behind an error is in order as well.
`Reading.Yields` asks nothing about defects.

There is a rule for each basic action, and `Reading.MeetsOnly.scan` is the rule for scans.
-/

namespace QuestScript

/-- If a defect was the reason, it is among the given ones. -/
def Abort.IsAmong (defects : Defect → Prop) : Abort → Prop
  | .internal defect => defects defect
  | .source | .endOfFile => True

theorem Abort.is_among_any (reason : Abort) : reason.IsAmong fun _ => True := by
  cases reason <;> trivial

namespace Reading

variable {n : Nat} {σ τ α β γ : Type} {defects : Defect → Prop} {x : Reading n σ α}
  {f : α → Reading n σ β} {p q : σ}

/-- The action met no defects but the given ones, and if it succeeded, its value and the state of
the reader are as described. -/
def Admits (defects : Defect → Prop) (post : α → σ → Prop) (r : Result σ α) : Prop :=
  match r.outcome with
  | .ok a => post a r.reader
  | .error reason => reason.IsAmong defects

/-- In no session does the action meet any defects but the given ones, and wherever it succeeds, its
value and the state of the reader are as described. -/
def MeetsOnly (defects : Defect → Prop) (x : Reading n σ α) (p : σ) (post : α → σ → Prop) : Prop :=
  ∀ (s : Session) h, Admits defects post (x.run p s h)

/-- Wherever the action succeeds, its value and the state of the reader are as described. -/
abbrev Yields (x : Reading n σ α) (p : σ) (post : α → σ → Prop) : Prop :=
  MeetsOnly (fun _ => True) x p post

theorem Yields.of_ok {post : α → σ → Prop} (hx : Yields x p post) {s : Session} {h : s.unread ≤ n}
    {a : α} (hok : (x.run p s h).outcome = .ok a) : post a (x.run p s h).reader := by
  have hadmits := hx s h
  rwa [Admits, hok] at hadmits

namespace MeetsOnly

variable {mid : α → σ → Prop} {post : β → σ → Prop}

/-! ### Rules for basic actions -/

theorem imp {post post' : α → σ → Prop} (hx : MeetsOnly defects x p post)
    (h : ∀ a q, post a q → post' a q) : MeetsOnly defects x p post' := by
  intro s hle
  have hadmits := hx s hle
  rcases hrun : x.run p s hle with ⟨outcome, q, t⟩
  rw [hrun] at hadmits
  cases outcome with
  | ok a => exact h a q hadmits
  | error reason => exact hadmits

protected theorem pure {post : α → σ → Prop} {a : α} (h : post a p) :
    MeetsOnly defects (pure a : Reading n σ α) p post :=
  fun _ _ => h

protected theorem abort {post : α → σ → Prop} {reason : Abort} (h : reason.IsAmong defects) :
    MeetsOnly defects (Reading.abort reason : Reading n σ α) p post :=
  fun _ _ => h

/-- An action that is in order in this session, and others in every session behind it. -/
theorem admits_bind {s : Session} {h : s.unread ≤ n} (hx : Admits defects mid (x.run p s h))
    (hf : ∀ a q, mid a q → MeetsOnly defects (f a) q post) :
    Admits defects post ((x >>= f).run p s h) := by
  have hle := x.unread_run_le p s h
  rcases hrun : x.run p s h with ⟨outcome, q, t⟩
  rw [hrun] at hx hle
  cases outcome with
  | error reason =>
      rw [run_bind_of_error hrun]
      exact hx
  | ok a =>
      rw [run_bind_of_ok hrun (Nat.le_trans hle h)]
      exact hf a q hx t _

protected theorem bind (hx : MeetsOnly defects x p mid)
    (hf : ∀ a q, mid a q → MeetsOnly defects (f a) q post) :
    MeetsOnly defects (x >>= f) p post :=
  fun s h => admits_bind (hx s h) hf

/-- What an action leaves if nothing is asked of it. -/
theorem any (x : Reading n σ α) (p : σ) : Yields x p fun _ _ => True := by
  intro s h
  unfold Admits
  split
  · trivial
  next reason _ => exact reason.is_among_any

/-- If nothing is asked of an action, only what follows it matters. -/
theorem after (h : ∀ a q, Yields (f a) q post) : Yields (x >>= f) p post :=
  .bind (any x p) fun a q _ => h a q

theorem assoc {f : α → Reading n σ β} {k : β → Reading n σ γ} {post : γ → σ → Prop}
    (h : MeetsOnly defects (x >>= fun a => f a >>= k) p post) :
    MeetsOnly defects ((x >>= f) >>= k) p post := by
  rwa [bind_assoc]

protected theorem map {f : α → β} (h : MeetsOnly defects x p fun a q => post (f a) q) :
    MeetsOnly defects (f <$> x) p post := by
  rw [map_eq_pure_bind]
  exact h.bind fun _ _ hpost => .pure hpost

variable {k : PUnit → Reading n σ β}

protected theorem get {f : σ → Reading n σ β} (h : MeetsOnly defects (f p) p post) :
    MeetsOnly defects (get >>= f) p post :=
  h

protected theorem set (h : MeetsOnly defects (k ⟨⟩) q post) :
    MeetsOnly defects (set q >>= k) p post :=
  h

protected theorem modify {change : σ → σ} (h : MeetsOnly defects (k ⟨⟩) (change p) post) :
    MeetsOnly defects (modify change >>= k) p post :=
  h

protected theorem look {view : Session → α} (h : ∀ a, MeetsOnly defects (f a) p post) :
    MeetsOnly defects (Reading.look view >>= f) p post :=
  fun s => h (view s) s

/-- An action that succeeds and leaves the reader alone. -/
theorem step {a : Session → α} {next : Session → Session}
    (hrun : ∀ (s : Session) h, x.run p s h = ⟨.ok (a s), p, next s⟩)
    (hf : ∀ s, MeetsOnly defects (f (a s)) p post) : MeetsOnly defects (x >>= f) p post :=
  .bind (fun s h => by rw [hrun]; exact ⟨s, rfl, rfl⟩ : MeetsOnly defects x p fun b q =>
    ∃ s, b = a s ∧ q = p) (by rintro _ _ ⟨s, rfl, rfl⟩; exact hf s)

protected theorem warn {problem : Problem} {location : Location}
    (h : MeetsOnly defects (k ⟨⟩) p post) :
    MeetsOnly defects (Reading.warn problem location >>= k) p post :=
  step (fun _ _ => rfl) fun _ => h

protected theorem report {problem : Problem} {location : Location}
    (h : MeetsOnly defects (k ⟨⟩) p post) :
    MeetsOnly defects (Reading.report problem location >>= k) p post :=
  step (fun _ _ => rfl) fun _ => h

protected theorem with_literals {make : Literals → α × Literals}
    {within : ∀ pool : Literals, pool.Within (make pool).2}
    (h : ∀ pool, MeetsOnly defects (f (make pool).1) p post) :
    MeetsOnly defects (Reading.withLiterals make within >>= f) p post :=
  step (fun _ _ => rfl) fun s => h s.literals

protected theorem fail {problem : Problem} {location : Location} {post : α → σ → Prop} :
    MeetsOnly defects (Reading.fail problem location : Reading n σ α) p post :=
  .report (.abort trivial)

protected theorem refuse {token : Token} {location : Location} {post : Verdict → σ → Prop} :
    MeetsOnly defects (Reading.refuse token location : Reading n σ Verdict) p post :=
  .fail

/-! ### Other readers -/

section Other

variable {y : Reading n τ α} {reader : τ} {inner : α → τ → Prop}

theorem admits_within {k : Except Abort α × τ → Reading n σ β} {s : Session} {h : s.unread ≤ n}
    (hy : Admits defects inner (y.run reader s h))
    (hok : ∀ a q, inner a q → MeetsOnly defects (k (.ok a, q)) p post)
    (herror : ∀ reason q, reason.IsAmong defects →
      MeetsOnly defects (k (.error reason, q)) p post) :
    Admits defects post ((Reading.within reader y >>= k).run p s h) := by
  have hle := y.unread_run_le reader s h
  rcases hrun : y.run reader s h with ⟨outcome, q, t⟩
  have hwithin : (Reading.within reader y : Reading n σ _).run p s h =
      ⟨.ok (outcome, q), p, t⟩ := by
    simp only [Reading.within, hrun]
  rw [hrun] at hy hle
  rw [run_bind_of_ok hwithin (Nat.le_trans hle h)]
  cases outcome with
  | ok a => exact hok a q hy t _
  | error reason => exact herror reason q hy t _

theorem admits_nested {k : α × τ → Reading n σ β} {s : Session} {h : s.unread ≤ n}
    (hy : Admits defects inner (y.run reader s h))
    (hk : ∀ a q, inner a q → MeetsOnly defects (k (a, q)) p post) :
    Admits defects post ((Reading.nested reader y >>= k).run p s h) := by
  rw [Reading.nested, bind_assoc]
  exact admits_within hy (fun a q ha => hk a q ha) fun _ _ hreason _ _ => hreason

protected theorem nested {k : α × τ → Reading n σ β} (hy : MeetsOnly defects y reader inner)
    (hk : ∀ a q, inner a q → MeetsOnly defects (k (a, q)) p post) :
    MeetsOnly defects (Reading.nested reader y >>= k) p post :=
  fun s h => admits_nested (hy s h) hk

end Other

theorem admits_attempt {k : Except Abort α → Reading n σ β} {s : Session} {h : s.unread ≤ n}
    (hx : Admits defects mid (x.run p s h))
    (hok : ∀ a q, mid a q → MeetsOnly defects (k (.ok a)) q post)
    (herror : ∀ reason q, reason.IsAmong defects → MeetsOnly defects (k (.error reason)) q post) :
    Admits defects post ((Reading.attempt x >>= k).run p s h) := by
  have hle := x.unread_run_le p s h
  rcases hrun : x.run p s h with ⟨outcome, q, t⟩
  have hattempt : (Reading.attempt x).run p s h = ⟨.ok outcome, q, t⟩ := by
    simp only [Reading.attempt, hrun]
  rw [hrun] at hx hle
  rw [run_bind_of_ok hattempt (Nat.le_trans hle h)]
  cases outcome with
  | ok a => exact hok a q hx t _
  | error reason => exact herror reason q hx t _

/-! ### Scans -/

/-- The answer of a reader to a token: as long as it wants more the invariant holds, and otherwise
what the scan is to achieve. -/
def Answers (defects : Defect → Prop) (inv done : σ → Prop) (verdict : Verdict) (q : σ) : Prop :=
  match verdict with
  | .more => inv q
  | .done | .handBack _ => done q
  | .giveUp _ reason => reason.IsAmong defects ∧ done q

section Scan

variable {env : Environment} {mayEnd : σ → Bool} {inv done : σ → Prop}
  {feed : (m : Nat) → m < n → Token → Location → Reading m σ Verdict} {s : Session}

/-- A turn of a scan keeps the invariant, or it is the last and achieves what it should. -/
def TurnKeeps (defects : Defect → Prop) (inv done : σ → Prop) : Turn σ → Prop
  | .last r => Admits defects (fun _ q => done q) r
  | .again q _ => inv q

theorem of_answer_keeps {r : Result σ Verdict} (hr : Admits defects (Answers defects inv done) r)
    (location : Location) (tolerantAfter : Option Bool) :
    TurnKeeps defects inv done (.ofAnswer location tolerantAfter r) := by
  rcases r with ⟨outcome, q, t⟩
  cases outcome with
  | error reason => exact hr
  | ok verdict =>
      cases verdict with
      | more | done | handBack back => exact hr
      | giveUp back reason => exact hr.1

theorem finish_admits (hend : mayEnd p = true → done p) :
    Admits defects (fun _ q => done q) (finish mayEnd p s) := by
  unfold finish
  split
  next h => exact hend h
  next => trivial

/-- One turn of a scan whose reader keeps the invariant. -/
theorem turn_keeps (env : Environment)
    (hfeed : ∀ m hm token location p, inv p →
      MeetsOnly defects (feed m hm token location) p (Answers defects inv done))
    (hend : ∀ p, mayEnd p = true → inv p → done p) (hp : inv p) (h : s.unread ≤ n) :
    TurnKeeps defects inv done (turn env mayEnd feed p s h) := by
  unfold turn
  split
  · exact finish_admits fun h => hend p h hp
  · exact hp
  · trivial
  · exact finish_admits fun h => hend p h hp
  · exact hp
  · exact of_answer_keeps (hfeed _ _ _ _ p hp _ _) _ _

/-- A scan whose reader keeps the invariant achieves what it should. -/
theorem scan (inv : σ → Prop)
    (hfeed : ∀ m hm token location p, inv p →
      MeetsOnly defects (feed m hm token location) p (Answers defects inv done))
    (hend : ∀ p, mayEnd p = true → inv p → done p) (hp : inv p) :
    MeetsOnly defects (Reading.scan env mayEnd feed) p fun _ q => done q := by
  intro s h
  show Admits defects _ (scanFrom env mayEnd feed p s h)
  induction hunread : s.unread using Nat.strongRecOn generalizing p s with
  | ind unread ih =>
      have hkeeps := turn_keeps env hfeed hend hp h
      cases hturn : turn env mayEnd feed p s h with
      | last r =>
          rw [hturn] at hkeeps
          rw [scan_from_of_last hturn]
          exact hkeeps
      | again q t =>
          have hlt := unread_lt_of_turn hturn
          rw [hturn] at hkeeps
          rw [scan_from_of_again hturn (by omega)]
          exact ih t.unread (hunread ▸ hlt) hkeeps t (by omega) rfl

end Scan

theorem skip_rest {env : Environment} :
    MeetsOnly defects (Reading.skipRest env : Reading n σ Unit) p fun _ q => q = p := by
  have hscan : MeetsOnly defects (Reading.scan env (fun _ => true) fun _ _ token _ =>
      pure (if token = .special .newline then .done else .more) : Reading n Unit Unit) ()
      fun _ _ => True := by
    refine .scan (fun _ => True) (fun _ _ _ _ _ _ => .pure ?_) (fun _ _ _ => trivial) trivial
    split <;> trivial
  exact .nested hscan fun _ _ _ => .pure rfl

theorem skip_line {env : Environment} :
    MeetsOnly defects (Reading.skipLine env : Reading n σ Unit) p fun _ q => q = p := by
  refine .look fun lineStart => ?_
  cases lineStart with
  | true => exact .pure rfl
  | false => exact skip_rest

/-- Behind an error the rest of the line is passed over; other reasons to stop are kept. -/
theorem admits_recover_line {x : Reading n σ Unit} {env : Environment} (done : σ → Prop)
    {s : Session} {h : s.unread ≤ n} (hx : Admits defects (fun _ q => done q) (x.run p s h)) :
    Admits defects (fun read q => read = true → done q)
      ((Reading.recoverLine env x).run p s h) := by
  refine admits_attempt hx (fun _ q hq => .pure fun _ => hq) fun reason q hreason => ?_
  cases reason with
  | source => exact .bind skip_line fun _ _ _ => .pure nofun
  | endOfFile => exact .abort trivial
  | internal defect => exact .abort hreason

end MeetsOnly

end Reading

end QuestScript
