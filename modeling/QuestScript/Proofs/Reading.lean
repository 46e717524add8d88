import Mathlib.Data.Nat.Basic
import QuestScript.Statement

/-!
# Laws of reading actions

Reading actions form a lawful monad, and what the basic actions do when they are run is stated
here once, so that no other module has to open them.

The loop of a scan is taken apart into turns. `Reading.turn` is what happens between two tokens,
and `Reading.scan_from_eq` says that a scan is its first turn followed by the scan of what is left.
-/

namespace QuestScript

/-! ### Bounds for what is left to read -/

namespace Session

/-- A session bounds what is left in itself. -/
theorem unread_le_self (s : Session) : s.unread ≤ s.unread :=
  Nat.le_refl _

/-- What is less than the session has left is within any bound for the session. -/
theorem unread_lt_of_lt (s : Session) {s' : Session} {n : Nat} (hlt : s'.unread < s.unread)
    (h : s.unread ≤ n) : s'.unread < n :=
  Nat.lt_of_lt_of_le hlt h

end Session

namespace Reading

variable {n : Nat} {σ τ α β : Type}

/-- Two actions are equal if they do the same on every state and session. -/
@[ext]
theorem ext {x y : Reading n σ α} (h : ∀ p s hle, x.run p s hle = y.run p s hle) : x = y := by
  cases x with
  | mk run unread =>
      cases y with
      | mk run' unread' =>
          have hrun : run = run' := by
            funext p s hle
            exact h p s hle
          subst hrun
          rfl

/-! ### Running the basic actions -/

section Run

variable {p : σ} {s : Session} {h : s.unread ≤ n} {f : α → Reading n σ β}

@[simp] theorem run_pure (a : α) : (pure a : Reading n σ α).run p s h = ⟨.ok a, p, s⟩ := rfl

theorem run_bind (x : Reading n σ α) :
    (x >>= f).run p s h =
      match (x.run p s h).outcome with
      | .ok a => (f a).run (x.run p s h).reader (x.run p s h).session
          (Nat.le_trans (x.unread_run_le p s h) h)
      | .error abort => ⟨.error abort, (x.run p s h).reader, (x.run p s h).session⟩ := rfl

/-- Goes on behind an action that succeeded. -/
theorem run_bind_of_ok {x : Reading n σ α} {a : α} {q : σ} {t : Session}
    (hx : x.run p s h = ⟨.ok a, q, t⟩) (ht : t.unread ≤ n) :
    (x >>= f).run p s h = (f a).run q t ht := by
  rw [run_bind]
  simp only [hx]

/-- The session behind an action that succeeded is within the bound. -/
theorem exists_run_bind_of_ok {x : Reading n σ α} {a : α} {q : σ} {t : Session}
    (hx : x.run p s h = ⟨.ok a, q, t⟩) : ∃ ht, (x >>= f).run p s h = (f a).run q t ht := by
  have hle := x.unread_run_le p s h
  rw [hx] at hle
  exact ⟨Nat.le_trans hle h, run_bind_of_ok hx _⟩

/-- Stops behind an action that stopped early. -/
theorem run_bind_of_error {x : Reading n σ α} {reason : Abort} {q : σ} {t : Session}
    (hx : x.run p s h = ⟨.error reason, q, t⟩) :
    (x >>= f).run p s h = ⟨.error reason, q, t⟩ := by
  rw [run_bind]
  simp only [hx]

theorem run_bind_assoc {γ : Type} (x : Reading n σ α) (g : β → Reading n σ γ) :
    ((x >>= f) >>= g).run p s h = (x >>= fun a => f a >>= g).run p s h := by
  have hle := x.unread_run_le p s h
  rcases hx : x.run p s h with ⟨outcome, q, t⟩
  rw [hx] at hle
  have ht : t.unread ≤ n := Nat.le_trans hle h
  cases outcome with
  | error reason =>
      rw [run_bind_of_error hx, run_bind_of_error (run_bind_of_error hx)]
  | ok a =>
      rw [run_bind_of_ok hx ht]
      have hle' := (f a).unread_run_le q t ht
      rcases hy : (f a).run q t ht with ⟨outcome, r, u⟩
      rw [hy] at hle'
      have hxf : (x >>= f).run p s h = _ := (run_bind_of_ok hx ht).trans hy
      cases outcome with
      | error reason => rw [run_bind_of_error hy, run_bind_of_error hxf]
      | ok b =>
          have hu : u.unread ≤ n := Nat.le_trans hle' ht
          rw [run_bind_of_ok hy hu, run_bind_of_ok hxf hu]

theorem run_id_map (x : Reading n σ α) : (id <$> x).run p s h = x.run p s h := by
  have hle := x.unread_run_le p s h
  rcases hx : x.run p s h with ⟨outcome, q, t⟩
  rw [hx] at hle
  show (x >>= fun a => pure a).run p s h = _
  cases outcome with
  | error reason => exact run_bind_of_error hx
  | ok a => exact run_bind_of_ok hx (Nat.le_trans hle h)

end Run

instance : LawfulMonad (Reading n σ) :=
  LawfulMonad.mk' (Reading n σ) (fun x => ext fun _ _ _ => run_id_map x) (fun _ _ => rfl)
    (fun x _ g => ext fun _ _ _ => run_bind_assoc x g)

section Basic

variable {p : σ} {s : Session} {h : s.unread ≤ n}

@[simp] theorem run_get : (get : Reading n σ σ).run p s h = ⟨.ok p, p, s⟩ := rfl

@[simp] theorem run_get_bind (f : σ → Reading n σ β) :
    ((get : Reading n σ σ) >>= f).run p s h = (f p).run p s h := rfl

@[simp] theorem run_set (q : σ) :
    (set q : Reading n σ PUnit).run p s h = ⟨.ok ⟨⟩, q, s⟩ := rfl

@[simp] theorem run_set_bind (q : σ) (f : PUnit → Reading n σ β) :
    (set q >>= f).run p s h = (f ⟨⟩).run q s h := rfl

@[simp] theorem run_modify (change : σ → σ) :
    (modify change : Reading n σ PUnit).run p s h = ⟨.ok ⟨⟩, change p, s⟩ := rfl

@[simp] theorem run_modify_bind (change : σ → σ) (f : PUnit → Reading n σ β) :
    (modify change >>= f).run p s h = (f ⟨⟩).run (change p) s h := rfl

@[simp] theorem run_abort (reason : Abort) :
    (abort reason : Reading n σ α).run p s h = ⟨.error reason, p, s⟩ := rfl

@[simp] theorem run_look_bind (view : Session → α) (f : α → Reading n σ β) :
    (look view >>= f).run p s h = (f (view s)).run p s h := rfl

@[simp] theorem run_report_bind (problem : Problem) (location : Location)
    (f : Unit → Reading n σ β) :
    (report problem location >>= f).run p s h =
      (f ()).run p { s with log := s.log.error problem.message location } h := rfl

@[simp] theorem run_with_literals_bind (make : Literals → α × Literals)
    (within : ∀ pool : Literals, pool.Within (make pool).2) (f : α → Reading n σ β) :
    (withLiterals make within >>= f).run p s h =
      (f (make s.literals).1).run p { s with literals := (make s.literals).2 } h := rfl

@[simp] theorem of_defect_ok (a : α) : (ofDefect (.ok a) : Reading n σ α) = pure a := rfl

@[simp] theorem of_defect_error (defect : Defect) :
    (ofDefect (.error defect) : Reading n σ α) = abort (.internal defect) := rfl

@[simp] theorem run_abort_bind (reason : Abort) (f : α → Reading n σ β) :
    ((abort reason : Reading n σ α) >>= f).run p s h = ⟨.error reason, p, s⟩ := rfl

@[simp] theorem run_map (f : α → β) (x : Reading n σ α) :
    (f <$> x).run p s h =
      ⟨f <$> (x.run p s h).outcome, (x.run p s h).reader, (x.run p s h).session⟩ := by
  show (x >>= fun a => pure (f a)).run p s h = _
  rw [run_bind]
  split <;> simp_all

theorem run_attempt {x : Reading n σ α} {outcome : Except Abort α} {q : σ} {t : Session}
    (hx : x.run p s h = ⟨outcome, q, t⟩) : (attempt x).run p s h = ⟨.ok outcome, q, t⟩ := by
  simp only [attempt, hx]

@[simp] theorem run_modify_modes_bind (change : Modes → Modes) (f : Unit → Reading n σ β) :
    (modifyModes change >>= f).run p s h =
      (f ()).run p { s with scanner := s.scanner.mapModes change } h := rfl

section Nested

variable {y : Reading n τ α} {reader reader' : τ} {t : Session}

theorem run_nested_of_ok {a : α} (hy : y.run reader s h = ⟨.ok a, reader', t⟩) :
    (nested reader y : Reading n σ (α × τ)).run p s h = ⟨.ok (a, reader'), p, t⟩ := by
  have hle := y.unread_run_le reader s h
  have hwithin : (within reader y : Reading n σ _).run p s h = ⟨.ok (.ok a, reader'), p, t⟩ := by
    simp only [within, hy]
  rw [hy] at hle
  exact run_bind_of_ok hwithin (Nat.le_trans hle h)

theorem run_nested_of_error {reason : Abort} (hy : y.run reader s h = ⟨.error reason, reader', t⟩) :
    (nested reader y : Reading n σ (α × τ)).run p s h = ⟨.error reason, p, t⟩ := by
  have hle := y.unread_run_le reader s h
  have hwithin : (within reader y : Reading n σ _).run p s h =
      ⟨.ok (.error reason, reader'), p, t⟩ := by
    simp only [within, hy]
  rw [hy] at hle
  exact run_bind_of_ok hwithin (Nat.le_trans hle h)

/-- Goes on behind a nested reader that succeeded. -/
theorem run_nested_bind_of_ok {a : α} {f : α × τ → Reading n σ β}
    (hy : y.run reader s h = ⟨.ok a, reader', t⟩) :
    ∃ ht, (nested reader y >>= f).run p s h = (f (a, reader')).run p t ht :=
  exists_run_bind_of_ok (run_nested_of_ok hy)

end Nested

end Basic

/-! ### The turns of a scan -/

/-- What one turn of a scan comes to. -/
inductive Turn (σ : Type) where
  /-- The scan is over. -/
  | last (result : Result σ Unit)
  /-- The reader wants the next token. -/
  | again (reader : σ) (session : Session)

/-- What the reader's answer to a token makes of a turn. -/
def Turn.ofAnswer (location : Location) (tolerantAfter : Option Bool) (r : Result σ Verdict) :
    Turn σ :=
  let after := r.session.restoreNames tolerantAfter
  match r.outcome with
  | .error reason => .last ⟨.error reason, r.reader, after⟩
  | .ok .done => .last ⟨.ok (), r.reader, after⟩
  | .ok (.handBack token) => .last ⟨.ok (), r.reader, after.putBack token location⟩
  | .ok (.giveUp token reason) => .last ⟨.error reason, r.reader, after.putBack token location⟩
  | .ok .more => .again r.reader after

theorem Turn.of_answer_eq_again {location : Location} {tolerantAfter : Option Bool}
    {r : Result σ Verdict} {q : σ} {t : Session} :
    Turn.ofAnswer location tolerantAfter r = .again q t ↔
      r.outcome = .ok .more ∧ r.reader = q ∧ r.session.restoreNames tolerantAfter = t := by
  unfold ofAnswer
  rcases r with ⟨_ | verdict, reader, session⟩
  · simp
  · cases verdict <;> simp

theorem Turn.log_of_of_answer {location : Location} {tolerantAfter : Option Bool}
    {answer : Result σ Verdict} {r : Result σ Unit}
    (h : Turn.ofAnswer location tolerantAfter answer = .last r) :
    r.session.log = answer.session.log := by
  have hlog : (answer.session.restoreNames tolerantAfter).log = answer.session.log := by
    cases tolerantAfter <;> rfl
  unfold ofAnswer at h
  rcases answer with ⟨_ | verdict, reader, session⟩
  · cases h
    exact hlog
  · cases verdict <;> cases h <;> exact hlog

/-- Pulls once and, if that brings a token, offers it to the reader. -/
def turn (env : Environment) (mayEnd : σ → Bool)
    (feed : (m : Nat) → m < n → Token → Location → Reading m σ Verdict)
    (p : σ) (s : Session) (h : s.unread ≤ n) : Turn σ :=
  match hpull : s.pull env with
  | (.ended, s') => .last (finish mayEnd p s')
  | (.blank, s') => .again p s'
  | (.malformed location, s') =>
    .last ⟨.error .source, p,
      { s' with log := s'.log.error Problem.syntaxError.message location }⟩
  | (.token .endOfText _ _, s') => .last (finish mayEnd p s')
  | (.token (.comment _) _ _, s') => .again p s'
  | (.token token location tolerantAfter, s') =>
    have hlt : s'.unread < s.unread := by
      have hlt := s.unread_pull_lt env
      rw [hpull] at hlt
      exact hlt (by rintro ⟨⟩)
    .ofAnswer location tolerantAfter
      ((feed s'.unread (s.unread_lt_of_lt hlt h) token location).run p s' s'.unread_le_self)

section Turns

variable {env : Environment} {mayEnd : σ → Bool}
  {feed : (m : Nat) → m < n → Token → Location → Reading m σ Verdict}
  {p q : σ} {s s' t : Session} {h : s.unread ≤ n} {token : Token} {location : Location}
  {tolerantAfter : Option Bool}

theorem turn_of_ended (hpull : s.pull env = (.ended, s')) :
    turn env mayEnd feed p s h = .last (finish mayEnd p s') := by
  unfold turn
  split <;> simp_all

theorem turn_of_blank (hpull : s.pull env = (.blank, s')) :
    turn env mayEnd feed p s h = .again p s' := by
  unfold turn
  split <;> simp_all

theorem turn_of_malformed (hpull : s.pull env = (.malformed location, s')) :
    turn env mayEnd feed p s h = .last ⟨.error .source, p,
      { s' with log := s'.log.error Problem.syntaxError.message location }⟩ := by
  unfold turn
  split <;> simp_all

theorem turn_of_end_of_text (hpull : s.pull env = (.token .endOfText location tolerantAfter, s')) :
    turn env mayEnd feed p s h = .last (finish mayEnd p s') := by
  unfold turn
  split <;> simp_all

theorem turn_of_comment {text : String}
    (hpull : s.pull env = (.token (.comment text) location tolerantAfter, s')) :
    turn env mayEnd feed p s h = .again p s' := by
  unfold turn
  split <;> simp_all

theorem turn_of_token (hpull : s.pull env = (.token token location tolerantAfter, s'))
    (hend : token ≠ .endOfText) (hcomment : ∀ text, token ≠ .comment text)
    (hlt : s'.unread < n) :
    turn env mayEnd feed p s h = .ofAnswer location tolerantAfter
      ((feed s'.unread hlt token location).run p s' (Nat.le_refl _)) := by
  unfold turn
  split
  case h_4 hpull' =>
    cases hpull'.symm.trans hpull
    exact absurd rfl hend
  case h_5 text _ _ _ hpull' =>
    cases hpull'.symm.trans hpull
    exact absurd rfl (hcomment text)
  case h_6 hpull' =>
    cases hpull'.symm.trans hpull
    rfl
  all_goals
    next hpull' => cases hpull'.symm.trans hpull

theorem turn_of_answer {outcome : Except Abort Verdict}
    (hpull : s.pull env = (.token token location tolerantAfter, s')) (hend : token ≠ .endOfText)
    (hcomment : ∀ text, token ≠ .comment text) (hlt : s'.unread < n)
    (houtcome : ((feed s'.unread hlt token location).run p s' (Nat.le_refl _)).outcome = outcome) :
    let r := (feed s'.unread hlt token location).run p s' (Nat.le_refl _)
    turn env mayEnd feed p s h =
      .ofAnswer location tolerantAfter ⟨outcome, r.reader, r.session⟩ := by
  rw [← houtcome]
  exact turn_of_token hpull hend hcomment hlt

/-- A turn after which the reader wants more has pulled something and taken nothing back. -/
theorem precedes_of_turn (hturn : turn env mayEnd feed p s h = .again q t) :
    (s.pull env).1 ≠ .ended ∧ (s.pull env).2.Precedes t := by
  have hlt := s.unread_pull_lt env
  rcases hpull : s.pull env with ⟨item, s'⟩
  rw [hpull] at hlt
  cases item with
  | ended => cases (turn_of_ended hpull).symm.trans hturn
  | blank =>
      cases (turn_of_blank hpull).symm.trans hturn
      exact ⟨nofun, .refl _⟩
  | malformed location => cases (turn_of_malformed hpull).symm.trans hturn
  | token token location tolerantAfter =>
      replace hlt : s'.unread < s.unread := hlt nofun
      by_cases hend : token = .endOfText
      · subst hend
        cases (turn_of_end_of_text hpull).symm.trans hturn
      by_cases hcomment : ∃ text, token = .comment text
      · obtain ⟨text, rfl⟩ := hcomment
        cases (turn_of_comment hpull).symm.trans hturn
        exact ⟨nofun, .refl _⟩
      rw [turn_of_token hpull hend (by simpa using hcomment) (by omega),
        Turn.of_answer_eq_again] at hturn
      obtain ⟨-, -, rfl⟩ := hturn
      exact ⟨nofun, ((feed _ _ token location).precedes_run p s' _).trans
        (Session.precedes_restore_names _ _)⟩

/-- A turn after which the reader wants more leaves less to read. -/
theorem unread_lt_of_turn (hturn : turn env mayEnd feed p s h = .again q t) :
    t.unread < s.unread := by
  obtain ⟨hitem, hprecedes⟩ := precedes_of_turn hturn
  exact Nat.lt_of_le_of_lt hprecedes.unread (s.unread_pull_lt env hitem)

/-- A scan is its first turn and, if the reader wants more, the scan of what is left. -/
theorem scan_from_eq {x : Turn σ} (hx : turn env mayEnd feed p s h = x) :
    scanFrom env mayEnd feed p s h =
      match x, hx with
      | .last r, _ => r
      | .again q t, hx =>
          scanFrom env mayEnd feed q t (Nat.le_trans (Nat.le_of_lt (unread_lt_of_turn hx)) h) := by
  fun_cases scanFrom env mayEnd feed p s h with
  | case1 s' hpull =>
      obtain rfl := (turn_of_ended hpull).symm.trans hx
      rfl
  | case2 s' hpull hlt =>
      obtain rfl := (turn_of_blank hpull).symm.trans hx
      rfl
  | case3 location s' hpull =>
      obtain rfl := (turn_of_malformed hpull).symm.trans hx
      rfl
  | case4 location tolerant s' hpull =>
      obtain rfl := (turn_of_end_of_text hpull).symm.trans hx
      rfl
  | case5 text location tolerant s' hpull hlt =>
      obtain rfl := (turn_of_comment hpull).symm.trans hx
      rfl
  | case6 token location tolerant s' hend hcomment hpull hlt action r after hle reason hr =>
      obtain rfl := (turn_of_answer hpull hend hcomment (Nat.lt_of_lt_of_le hlt h) hr).symm.trans hx
      rfl
  | case7 token location tolerant s' hend hcomment hpull hlt action r after hle hr =>
      obtain rfl := (turn_of_answer hpull hend hcomment (Nat.lt_of_lt_of_le hlt h) hr).symm.trans hx
      rfl
  | case8 token location tolerant s' hend hcomment hpull hlt action r after hle back hr =>
      obtain rfl := (turn_of_answer hpull hend hcomment (Nat.lt_of_lt_of_le hlt h) hr).symm.trans hx
      rfl
  | case9 token location tolerant s' hend hcomment hpull hlt action r after hle back reason hr =>
      obtain rfl := (turn_of_answer hpull hend hcomment (Nat.lt_of_lt_of_le hlt h) hr).symm.trans hx
      rfl
  | case10 token location tolerant s' hend hcomment hpull hlt action r after hle hr =>
      obtain rfl := (turn_of_answer hpull hend hcomment (Nat.lt_of_lt_of_le hlt h) hr).symm.trans hx
      rfl

/-- A scan whose first turn is the last has come to what that turn comes to. -/
theorem scan_from_of_last {r : Result σ Unit} (hturn : turn env mayEnd feed p s h = .last r) :
    scanFrom env mayEnd feed p s h = r :=
  scan_from_eq hturn

/-- A scan whose reader wants more after the first turn goes on from there. -/
theorem scan_from_of_again (hturn : turn env mayEnd feed p s h = .again q t) (ht : t.unread ≤ n) :
    scanFrom env mayEnd feed p s h = scanFrom env mayEnd feed q t ht :=
  scan_from_eq hturn

end Turns

end Reading

/-! ### The tokens of a text -/

/-- The token is offered to readers. Comments and the end of the text are not. -/
def Token.IsOffered (token : Token) : Prop :=
  token ≠ .endOfText ∧ ∀ text, token ≠ .comment text

theorem Token.is_offered_int (value : Int32) : IsOffered (.int value) :=
  ⟨by rintro ⟨⟩, by rintro _ ⟨⟩⟩

theorem Token.is_offered_float (value : Binary32) : IsOffered (.float value) :=
  ⟨by rintro ⟨⟩, by rintro _ ⟨⟩⟩

theorem Token.is_offered_keyword (word : Keyword) : IsOffered (.keyword word) :=
  ⟨by rintro ⟨⟩, by rintro _ ⟨⟩⟩

theorem Token.is_offered_name (name : String) : IsOffered (.name name) :=
  ⟨by rintro ⟨⟩, by rintro _ ⟨⟩⟩

theorem Token.is_offered_special (sign : Special) : IsOffered (.special sign) :=
  ⟨by rintro ⟨⟩, by rintro _ ⟨⟩⟩

/-- What is not offered to a reader: blanks and comments. -/
def Item.IsPassed : Item → Prop
  | .blank | .token (.comment _) _ _ => True
  | _ => False

namespace Scanner

/-- Returns to the given setting of tolerant names, if there is one. -/
def restoreNames (s : Scanner) (tolerantAfter : Option Bool) : Scanner :=
  match tolerantAfter with
  | none => s
  | some setting => s.mapModes fun modes => { modes with tolerantNames := setting }

/-- The scanner delivers these tokens, as long as nobody interferes. On the way it makes the
reports, and behind the last token it is in the final state. -/
inductive Delivers (registry : Registry) :
    Scanner → List (Token × Location) → List Report → Scanner → Prop where
  | nil (s : Scanner) : Delivers registry s [] [] s
  | pass {s final : Scanner} {first : Token × Location} {tokens : List (Token × Location)}
      {reports : List Report} (hpass : Item.IsPassed (s.pull registry).item)
      (hrest : Delivers registry (s.pull registry).scanner (first :: tokens) reports final) :
      Delivers registry s (first :: tokens) ((s.pull registry).reports ++ reports) final
  | take {s final : Scanner} {token : Token} {location : Location} {tolerantAfter : Option Bool}
      {tokens : List (Token × Location)} {reports : List Report}
      (hpull : (s.pull registry).item = .token token location tolerantAfter)
      (hend : token ≠ .endOfText) (hcomment : ∀ text, token ≠ .comment text)
      (hrest : Delivers registry ((s.pull registry).scanner.restoreNames tolerantAfter) tokens
        reports final) :
      Delivers registry s ((token, location) :: tokens) ((s.pull registry).reports ++ reports) final

end Scanner

theorem Session.scanner_restore_names (s : Session) (tolerantAfter : Option Bool) :
    s.restoreNames tolerantAfter =
      { s with scanner := s.scanner.restoreNames tolerantAfter } := by
  cases tolerantAfter <;> rfl

theorem Reading.Turn.of_answer_more {σ : Type} (location : Location) (tolerantAfter : Option Bool)
    (q : σ) (t : Session) :
    Turn.ofAnswer location tolerantAfter ⟨.ok .more, q, t⟩ =
      .again q { t with scanner := t.scanner.restoreNames tolerantAfter } := by
  rw [← Session.scanner_restore_names]
  rfl

theorem Session.unread_lt_of_is_passed (s : Session) {env : Environment} {item : Item}
    {s' : Session}
    (hpull : s.pull env = (item, s')) (hpass : item.IsPassed) : s'.unread < s.unread := by
  have hlt := s.unread_pull_lt env
  rw [hpull] at hlt
  refine hlt fun hended => ?_
  cases hended
  exact hpass

/-- A scan goes on behind what is not offered to its reader. -/
theorem Reading.scan_from_of_is_passed {n : Nat} {σ : Type} {env : Environment} {mayEnd : σ → Bool}
    {feed : (m : Nat) → m < n → Token → Location → Reading m σ Verdict} {p : σ} {s : Session}
    {h : s.unread ≤ n} {item : Item} {s' : Session} (hpull : s.pull env = (item, s'))
    (hpass : item.IsPassed) (h' : s'.unread ≤ n) :
    scanFrom env mayEnd feed p s h = scanFrom env mayEnd feed p s' h' := by
  cases item with
  | blank => exact scan_from_of_again (turn_of_blank hpull) _
  | malformed location => cases hpass
  | ended => cases hpass
  | token token location tolerantAfter =>
      cases token with
      | comment text => exact scan_from_of_again (turn_of_comment hpull) _
      | int | float | name | keyword | special | endOfText => cases hpass

/-! ### The run of a scan -/

/-- What brings a scan to its end: the end of the text. -/
def Item.IsEnd : Item → Prop
  | .ended | .token .endOfText _ _ => True
  | _ => False

namespace Reading

variable {σ : Type} {env : Environment} {mayEnd : σ → Bool}
  {feed : (m : Nat) → Token → Location → Reading m σ Verdict}

/-- The run of a scan, token by token, and what it comes to. -/
inductive Scans (env : Environment) (mayEnd : σ → Bool)
    (feed : (m : Nat) → Token → Location → Reading m σ Verdict) :
    σ → Session → Result σ Unit → Prop where
  | ended {p : σ} {s s' : Session} {item : Item} (hpull : s.pull env = (item, s'))
      (hend : item.IsEnd) : Scans env mayEnd feed p s (finish mayEnd p s')
  | malformed {p : σ} {s s' : Session} {location : Location}
      (hpull : s.pull env = (.malformed location, s')) :
      Scans env mayEnd feed p s ⟨.error .source, p,
        { s' with log := s'.log.error Problem.syntaxError.message location }⟩
  | pass {p : σ} {s s' : Session} {item : Item} {r : Result σ Unit}
      (hpull : s.pull env = (item, s')) (hpass : item.IsPassed)
      (hrest : Scans env mayEnd feed p s' r) : Scans env mayEnd feed p s r
  | last {p : σ} {s s' : Session} {token : Token} {location : Location}
      {tolerantAfter : Option Bool} {r : Result σ Unit}
      (hpull : s.pull env = (.token token location tolerantAfter, s'))
      (hend : token ≠ .endOfText) (hcomment : ∀ text, token ≠ .comment text)
      (hanswer : Turn.ofAnswer location tolerantAfter
        (runOn (fun m => feed m token location) p s') =
        .last r) : Scans env mayEnd feed p s r
  | more {p q : σ} {s s' t : Session} {token : Token} {location : Location}
      {tolerantAfter : Option Bool} {r : Result σ Unit}
      (hpull : s.pull env = (.token token location tolerantAfter, s'))
      (hend : token ≠ .endOfText) (hcomment : ∀ text, token ≠ .comment text)
      (hfeed : runOn (fun m => feed m token location) p s' = ⟨.ok .more, q, t⟩)
      (hrest : Scans env mayEnd feed q (t.restoreNames tolerantAfter) r) :
      Scans env mayEnd feed p s r

/-- A scan comes to what its run comes to. -/
theorem scans_scan_from {n : Nat} {p : σ} {s : Session} (h : s.unread ≤ n) :
    Scans env mayEnd feed p s (scanFrom env mayEnd (fun m (_ : m < n) => feed m) p s h) := by
  -- By induction on what is left to read, of which each turn but the last takes something.
  induction hunread : s.unread using Nat.strongRecOn generalizing p s with
  | ind unread ih =>
      subst hunread
      have hlt := s.unread_pull_lt env
      rcases hpull : s.pull env with ⟨item, s'⟩
      rw [hpull] at hlt
      cases item with
      | ended =>
          rw [scan_from_of_last (turn_of_ended hpull)]
          exact .ended hpull trivial
      | malformed location =>
          rw [scan_from_of_last (turn_of_malformed hpull)]
          exact .malformed hpull
      | blank =>
          replace hlt : s'.unread < s.unread := hlt (by rintro ⟨⟩)
          rw [scan_from_of_again (turn_of_blank hpull) (by omega)]
          exact .pass hpull trivial (ih _ hlt _ rfl)
      | token token location tolerantAfter =>
          replace hlt : s'.unread < s.unread := hlt (by rintro ⟨⟩)
          by_cases hend : token = .endOfText
          · subst hend
            rw [scan_from_of_last (turn_of_end_of_text hpull)]
            exact .ended hpull trivial
          by_cases hcomment : ∃ text, token = .comment text
          · obtain ⟨text, rfl⟩ := hcomment
            rw [scan_from_of_again (turn_of_comment hpull) (by omega)]
            exact .pass hpull trivial (ih _ hlt _ rfl)
          replace hcomment : ∀ text, token ≠ .comment text := by simpa using hcomment
          have hturn : turn env mayEnd (fun m (_ : m < n) => feed m) p s h =
              .ofAnswer location tolerantAfter (runOn (fun m => feed m token location) p s') :=
            turn_of_token hpull hend hcomment (by omega)
          cases hanswer : Turn.ofAnswer location tolerantAfter
              (runOn (fun m => feed m token location) p s') with
          | last r =>
              rw [scan_from_of_last (hturn.trans hanswer)]
              exact .last hpull hend hcomment hanswer
          | again q t =>
              have hlt' := unread_lt_of_turn (hturn.trans hanswer)
              rw [scan_from_of_again (hturn.trans hanswer) (by omega)]
              have hrest := ih _ hlt' (by omega) (p := q) rfl
              rcases hrun : runOn (fun m => feed m token location) p s' with ⟨outcome, q', t'⟩
              rw [hrun, Turn.of_answer_eq_again] at hanswer
              obtain ⟨rfl, rfl, rfl⟩ := hanswer
              exact .more hpull hend hcomment hrun hrest

theorem Scans.of_pass {p : σ} {s s' : Session} {item : Item} {r : Result σ Unit}
    (h : Scans env mayEnd feed p s r) (hpull : s.pull env = (item, s')) (hpass : item.IsPassed) :
    Scans env mayEnd feed p s' r := by
  cases h with
  | ended hpull' hitem =>
      cases hpull.symm.trans hpull'
      unfold Item.IsPassed at hpass
      split at hpass <;> first | exact hpass.elim | exact hitem.elim
  | malformed hpull' =>
      cases hpull.symm.trans hpull'
      exact hpass.elim
  | pass hpull' _ hrest =>
      cases hpull.symm.trans hpull'
      exact hrest
  | @last _ _ _ token _ _ _ hpull' _ hcomment =>
      cases hpull.symm.trans hpull'
      cases token <;> first | exact hpass.elim | exact absurd rfl (hcomment _)
  | @more _ _ _ _ _ token _ _ _ hpull' _ hcomment =>
      cases hpull.symm.trans hpull'
      cases token <;> first | exact hpass.elim | exact absurd rfl (hcomment _)

theorem Scans.of_token {p : σ} {s s' : Session} {token : Token} {location : Location}
    {tolerantAfter : Option Bool} {r : Result σ Unit} (h : Scans env mayEnd feed p s r)
    (hpull : s.pull env = (.token token location tolerantAfter, s'))
    (hend : token ≠ .endOfText) (hcomment : ∀ text, token ≠ .comment text) :
    Turn.ofAnswer location tolerantAfter (runOn (fun m => feed m token location) p s') = .last r ∨
      ∃ q t, runOn (fun m => feed m token location) p s' = ⟨.ok .more, q, t⟩ ∧
        Scans env mayEnd feed q (t.restoreNames tolerantAfter) r := by
  cases h with
  | ended hpull' hitem =>
      cases hpull.symm.trans hpull'
      cases token <;> first | exact hitem.elim | exact absurd rfl hend
  | malformed hpull' => cases hpull.symm.trans hpull'
  | pass hpull' hpass =>
      cases hpull.symm.trans hpull'
      cases token <;> first | exact hpass.elim | exact absurd rfl (hcomment _)
  | last hpull' _ _ hanswer =>
      cases hpull.symm.trans hpull'
      exact Or.inl hanswer
  | more hpull' _ _ hfeed hrest =>
      cases hpull.symm.trans hpull'
      exact Or.inr ⟨_, _, hfeed, hrest⟩

/-- A scan comes to one thing only. -/
theorem Scans.unique {p : σ} {s : Session} {r r' : Result σ Unit}
    (h : Scans env mayEnd feed p s r) (h' : Scans env mayEnd feed p s r') : r = r' := by
  -- By induction on one scan. What it pulls decides which case the other one is in.
  induction h with
  | ended hpull hitem =>
      cases h' with
      | ended hpull' =>
          cases hpull.symm.trans hpull'
          rfl
      | malformed hpull' =>
          cases hpull.symm.trans hpull'
          exact hitem.elim
      | @pass _ _ _ item _ hpull' hpass =>
          cases hpull.symm.trans hpull'
          unfold Item.IsPassed at hpass
          split at hpass <;> first | exact hpass.elim | exact hitem.elim
      | @last _ _ _ token _ _ _ hpull' hend =>
          cases hpull.symm.trans hpull'
          cases token <;> first | exact hitem.elim | exact absurd rfl hend
      | @more _ _ _ _ _ token _ _ _ hpull' hend =>
          cases hpull.symm.trans hpull'
          cases token <;> first | exact hitem.elim | exact absurd rfl hend
  | malformed hpull =>
      cases h' with
      | ended hpull' hitem =>
          cases hpull.symm.trans hpull'
          exact hitem.elim
      | malformed hpull' =>
          cases hpull.symm.trans hpull'
          rfl
      | pass hpull' hpass =>
          cases hpull.symm.trans hpull'
          exact hpass.elim
      | last hpull' => cases hpull.symm.trans hpull'
      | more hpull' => cases hpull.symm.trans hpull'
  | pass hpull hpass _ ih => exact ih (h'.of_pass hpull hpass)
  | last hpull hend hcomment hanswer =>
      obtain hanswer' | ⟨q, t, hfeed, -⟩ := h'.of_token hpull hend hcomment
      · cases hanswer.symm.trans hanswer'
        rfl
      · rw [hfeed] at hanswer
        cases hanswer
  | more hpull hend hcomment hfeed _ ih =>
      obtain hanswer | ⟨q, t, hfeed', hrest⟩ := h'.of_token hpull hend hcomment
      · rw [hfeed] at hanswer
        cases hanswer
      · cases hfeed.symm.trans hfeed'
        exact ih hrest

theorem Scans.precedes_log {p : σ} {s : Session} {r : Result σ Unit}
    (h : Scans env mayEnd feed p s r) : s.log.Precedes r.session.log := by
  induction h with
  | @ended p s s' item hpull hend =>
      have hprecedes := s.precedes_pull env
      rw [hpull] at hprecedes
      exact hprecedes.log.trans (precedes_finish mayEnd p s').log
  | @malformed p s s' location hpull =>
      have hprecedes := s.precedes_pull env
      rw [hpull] at hprecedes
      exact hprecedes.log.trans (Log.precedes_error _ _ _)
  | @pass p s s' item r hpull hpass hrest ih =>
      have hprecedes := s.precedes_pull env
      rw [hpull] at hprecedes
      exact hprecedes.log.trans ih
  | @last p s s' token location tolerantAfter r hpull hend hcomment hanswer =>
      have hprecedes := s.precedes_pull env
      rw [hpull] at hprecedes
      rw [Turn.log_of_of_answer hanswer]
      exact hprecedes.log.trans ((feed s'.unread token location).precedes_run p s' _).log
  | @more p q s s' t token location tolerantAfter r hpull hend hcomment hfeed hrest ih =>
      have hprecedes := s.precedes_pull env
      rw [hpull] at hprecedes
      have hrun := (feed s'.unread token location).precedes_run p s' (Nat.le_refl _)
      rw [show (feed s'.unread token location).run p s' _ = _ from hfeed] at hrun
      exact (hprecedes.log.trans hrun.log).trans ((t.precedes_restore_names _).log.trans ih)

end Reading

theorem Expression.within_call (e : Expression) (function : Extension) (optionals : Nat)
    (pool : Literals) : pool.Within (function.call e.object optionals pool).2 :=
  function.within_call e.object optionals pool

theorem Reading.with_literals_congr {n : Nat} {σ α : Type} {make make' : Literals → α × Literals}
    {within : ∀ pool : Literals, pool.Within (make pool).2}
    {within' : ∀ pool : Literals, pool.Within (make' pool).2} (h : make = make') :
    (withLiterals make within : Reading n σ α) = withLiterals make' within' := by
  subst h
  rfl

theorem Registry.call_function_of_some {registry : Registry} {code : Int} {function : Extension}
    (h : registry.function? code = some function) (id : String) (optionals : Nat) :
    registry.callFunction code id optionals = function.call id optionals := by
  funext pool
  simp only [callFunction, h]

theorem Registry.call_instruction_of_some {registry : Registry} {code : Int}
    {instruction : Extension} (h : registry.instruction? code = some instruction) (id : String)
    (optionals : Nat) :
    registry.callInstruction code id optionals = instruction.call id optionals := by
  funext pool
  simp only [callInstruction, h]

/-- The session in which a reader is started on a token that has been delivered. -/
def Session.started (s : Session) (token : Token) : Session :=
  if token.isKeyword then s else s.redeliver token

theorem Session.precedes_started (s : Session) (token : Token) :
    s.Precedes (s.started token) := by
  unfold started
  split
  · exact .refl s
  · exact s.precedes_redeliver token

theorem Session.started_redeliver (s : Session) (token : Token) :
    (s.redeliver token).started token = s.redeliver token := by
  unfold started
  split
  · rfl
  · simp [redeliver, Scanner.redeliver]

theorem Session.log_started (s : Session) (token : Token) : (s.started token).log = s.log := by
  unfold started
  split <;> rfl

theorem Session.unread_started_le (s : Session) (token : Token) :
    (s.started token).unread ≤ s.unread :=
  (s.precedes_started token).unread

section Starting

variable {n : Nat} {σ : Type} {feed : Token → Location → Reading n σ Verdict}
  {scan : Reading n σ Unit} {token : Token} {location : Location}

theorem Reading.starting_some :
    starting feed scan (some (token, location)) =
      if token.isKeyword then feed token location >>= follow scan
      else redeliver token >>= fun _ => feed token location >>= follow scan :=
  rfl

/-- To start a reader on a token is to feed it the token and to go on as it answers. -/
theorem Reading.run_starting {p : σ} {s t : Session} {h : s.unread ≤ n}
    (hstarted : s.started token = t) (ht : t.unread ≤ n) :
    (starting feed scan (some (token, location))).run p s h =
      (feed token location >>= follow scan).run p t ht := by
  subst hstarted
  revert ht
  rw [starting_some]
  unfold Session.started
  split <;> exact fun _ => rfl

end Starting

/-- The call of a function of the host, behind the check of its object. -/
abbrev Expression.callFunction {n : Nat} (env : Environment) (nested : Reading n Expression Unit)
    (function : Extension) (location : Location) : Reading n Expression Bool := do
  start
  place location
  let optionals ← readArguments env nested function.arguments
  let e ← get
  let fragment ← Reading.withLiterals (function.call e.object optionals)
    (e.within_call function optionals)
  modify (·.emit fragment.code)
  let _ ← Reading.ofDefect fragment.toExcept
  modify ({ · with object := "" })
  called (function.returns.getD .long)

namespace Expression

variable {n : Nat} {env : Environment} {nested : Reading n Expression Unit} {code : Int}
  {location : Location} {function : Extension}

theorem call_extension_of_none (h : env.extensions.function? code = none) :
    callExtension env nested code location = pure false := by
  unfold callExtension
  rw [h]

/-- A function that has been found is the one that is called. -/
theorem call_extension_of_some (h : env.extensions.function? code = some function) :
    callExtension env nested code location = (do
      if !(← get).object.isEmpty && !function.hasExplicit then
        Reading.warn .strayReference location
        modify ({ · with object := "" })
      callFunction env nested function location) := by
  have hcall (id : String) (optionals : Nat) (within) :
      (Reading.withLiterals (env.extensions.callFunction code id optionals) within :
        Reading n Expression Fragment) =
      Reading.withLiterals (function.call id optionals) (function.within_call id optionals) :=
    Reading.with_literals_congr (Registry.call_function_of_some h id optionals)
  unfold callExtension
  rw [h]
  simp only [hcall]

end Expression

/-- An instruction that has been found is the one that is called. -/
theorem Statement.emit_fragment_call_instruction {n : Nat} {env : Environment} {code : Int}
    {instruction : Extension} (h : env.extensions.instruction? code = some instruction)
    (id : String) (optionals : Nat) (within) :
    (emitFragment (env.extensions.callInstruction code id optionals) within :
      Reading n Statement Unit) =
    emitFragment (instruction.call id optionals) (instruction.within_call id optionals) := by
  unfold emitFragment
  rw [Reading.with_literals_congr (Registry.call_instruction_of_some h id optionals)]

end QuestScript
