import QuestScript.Proofs.Carries
import QuestScript.Proofs.Position
import QuestScript.Proofs.Reading

/-!
# Readings without errors

A compilation that counts no error has met none on its way. So a reader may be judged by what it
does in sessions that can still come to such an end: an action that reports an error, for
instance, may do anything afterwards.

`Reading.Sound` says that an action leaves what it should, in all sessions that can still come to
the given ending. There is a rule for each basic action, and `Reading.Sound.scan` is the rule for
scans: what holds at the start and is kept by each token holds at the end.
-/

namespace QuestScript

/-- How a compilation ends: with its literals, its local variables and its number of errors. -/
structure Ending extends Surroundings where
  errors : Nat

variable {g : Ending} {atEnd : Bool} {s t u : Session}

namespace Session

/-- The session can come to the ending: its literals and local variables are among the final ones,
and no error is to be counted any more. -/
structure Clean (g : Ending) (s : Session) : Prop where
  literals : s.literals.Within g.literals
  locals : s.locals.Within g.locals
  errors : s.log.errors = g.errors
  downgrade : s.log.downgrade = false

/-- A token that is spelled `PositionCell` has been put back only at the end of the text. -/
def Fits (g : Ending) (s : Session) : Prop :=
  ∀ token location, s.scanner.pending = some (token, location) →
    token.IsPosition g.env.extensions location → s.scanner.rest = []

/-- What readers may rely on. With `atEnd` there is nothing left to read. -/
structure Ready (g : Ending) (atEnd : Bool) (s : Session) : Prop extends Clean g s where
  fits : s.Fits g
  unread : atEnd = true → s.unread = 0

/-- Between two sessions that can come to the ending there are only such sessions. -/
theorem Clean.between (hs : s.Clean g) (hst : s.Precedes t) (htu : t.Precedes u)
    (hu : u.Clean g) : t.Clean g where
  literals := htu.literals.trans hu.literals
  locals := htu.locals.trans hu.locals
  errors := by
    have hle := hst.log.errors
    have hle' := htu.log.errors
    rw [hs.errors] at hle
    rw [hu.errors] at hle'
    omega
  downgrade := hst.log.downgrade.trans hs.downgrade

theorem Ready.next (hs : s.Ready g atEnd) (hst : s.Precedes t) (ht : t.Clean g)
    (hfits : t.Fits g) : t.Ready g atEnd where
  toClean := ht
  fits := hfits
  unread hend := Nat.eq_zero_of_le_zero (hs.unread hend ▸ hst.unread)

/-- Behind an error that is counted there is no way to the ending. -/
theorem Clean.not_clean_of_lt (hs : s.Clean g) (hlt : s.log.errors < u.log.errors) :
    ¬u.Clean g := by
  intro hu
  rw [hs.errors, hu.errors] at hlt
  exact Nat.lt_irrefl _ hlt

/-- An error that is reported is counted. -/
theorem Clean.errors_lt_error (hs : s.Clean g) (hst : s.Precedes t) (message : String)
    (location : Location) : s.log.errors < (t.log.error message location).errors := by
  have hdowngrade : t.log.downgrade = false := hst.log.downgrade.trans hs.downgrade
  rw [Log.error, hdowngrade, if_neg Bool.false_ne_true]
  exact Nat.lt_succ_of_le hst.log.errors

theorem fits_of_pending_none (h : s.scanner.pending = none) : s.Fits g := by
  intro token location hpending
  rw [h] at hpending
  cases hpending

/-- Fitting is about the token that has been put back and the text that is left. -/
theorem Fits.of_eq (hs : s.Fits g) (hpending : t.scanner.pending = s.scanner.pending)
    (hrest : t.scanner.rest = s.scanner.rest) : t.Fits g := by
  intro token location h hposition
  rw [hrest]
  exact hs token location (hpending ▸ h) hposition

theorem Clean.of_restore_names {tolerantAfter : Option Bool}
    (h : (s.restoreNames tolerantAfter).Clean g) : s.Clean g := by
  cases tolerantAfter with
  | none => exact h
  | some setting => exact ⟨h.literals, h.locals, h.errors, h.downgrade⟩

theorem Clean.of_put_back {token : Token} {location : Location}
    (h : (s.putBack token location).Clean g) : s.Clean g :=
  ⟨h.literals, h.locals, h.errors, h.downgrade⟩

theorem Fits.restore_names (hs : s.Fits g) (tolerantAfter : Option Bool) :
    (s.restoreNames tolerantAfter).Fits g := by
  cases tolerantAfter <;> exact hs.of_eq rfl rfl

end Session

namespace Reading

variable {n : Nat} {σ τ α β γ : Type} {x : Reading n σ α} {f : α → Reading n σ β} {p q : σ}

/-- The result is as it should be, if the session can still come to the ending: the value and the
state of the reader are as described, and the reader did not stop for an error in the script. -/
def Settles (g : Ending) (post : α → σ → Prop) (r : Result σ α) : Prop :=
  r.session.Clean g → r.session.Fits g ∧
    match r.outcome with
    | .ok a => post a r.reader
    | .error reason => reason ≠ .source

/-- In sessions that can come to the ending the action has a result as it should be. -/
def Sound (g : Ending) (atEnd : Bool) (x : Reading n σ α) (p : σ) (post : α → σ → Prop) : Prop :=
  ∀ s : Session, s.Ready g atEnd → ∀ h, Settles g post (x.run p s h)

namespace Sound

variable {mid : α → σ → Prop} {post : β → σ → Prop}

/-! ### Rules for basic actions -/

theorem imp {post post' : α → σ → Prop} (hx : Sound g atEnd x p post)
    (h : ∀ a q, post a q → post' a q) : Sound g atEnd x p post' := by
  intro s hs hle hclean
  have hsettles := hx s hs hle hclean
  rcases hrun : x.run p s hle with ⟨outcome, q, t⟩
  rw [hrun] at hsettles
  cases outcome with
  | ok a => exact ⟨hsettles.1, h a q hsettles.2⟩
  | error reason => exact hsettles

protected theorem pure {post : α → σ → Prop} {a : α} (h : post a p) :
    Sound g atEnd (pure a : Reading n σ α) p post :=
  fun _ hs _ _ => ⟨hs.fits, h⟩

protected theorem abort {post : α → σ → Prop} {reason : Abort} (h : reason ≠ .source) :
    Sound g atEnd (Reading.abort reason : Reading n σ α) p post :=
  fun _ hs _ _ => ⟨hs.fits, h⟩

/-- Behind an action of any reader, if the ending can be reached from there: the session is as
before, and the action has left what it should. -/
theorem ready_run {y : Reading n τ α} {reader : τ} {inner : α → τ → Prop}
    (hy : Sound g atEnd y reader inner) (hs : s.Ready g atEnd) {h : s.unread ≤ n}
    (hprecedes : (y.run reader s h).session.Precedes u) (hu : u.Clean g) :
    (y.run reader s h).session.Ready g atEnd ∧
      match (y.run reader s h).outcome with
      | .ok a => inner a (y.run reader s h).reader
      | .error reason => reason ≠ .source := by
  have hle := y.precedes_run reader s h
  have hclean := hs.toClean.between hle hprecedes hu
  obtain ⟨hfits, hinner⟩ := hy s hs h hclean
  exact ⟨hs.next hle hclean hfits, hinner⟩

protected theorem bind (hx : Sound g atEnd x p mid)
    (hf : ∀ a q, mid a q → Sound g atEnd (f a) q post) : Sound g atEnd (x >>= f) p post := by
  intro s hs h hclean
  have hle := (x.precedes_run p s h).unread
  have hready := hx.ready_run hs (u := ((x >>= f).run p s h).session) (h := h)
  rcases hrun : x.run p s h with ⟨outcome, q, t⟩
  rw [hrun] at hready hle
  cases outcome with
  | error reason =>
      rw [run_bind_of_error hrun] at hclean hready ⊢
      obtain ⟨ht, hreason⟩ := hready (.refl t) hclean
      exact ⟨ht.fits, hreason⟩
  | ok a =>
      rw [run_bind_of_ok hrun (hle.trans h)] at hclean hready ⊢
      obtain ⟨ht, hmid⟩ := hready ((f a).precedes_run _ _ _) hclean
      exact hf a q hmid t ht _ hclean

theorem assoc {f : α → Reading n σ β} {k : β → Reading n σ γ} {post : γ → σ → Prop}
    (h : Sound g atEnd (x >>= fun a => f a >>= k) p post) :
    Sound g atEnd ((x >>= f) >>= k) p post := by
  rwa [bind_assoc]

protected theorem map {f : α → β} (h : Sound g atEnd x p fun a q => post (f a) q) :
    Sound g atEnd (f <$> x) p post := by
  rw [map_eq_pure_bind]
  exact h.bind fun _ _ hpost => .pure hpost

variable {k : PUnit → Reading n σ β}

protected theorem get {f : σ → Reading n σ β} (h : Sound g atEnd (f p) p post) :
    Sound g atEnd (get >>= f) p post :=
  h

protected theorem set (h : Sound g atEnd (k ⟨⟩) q post) : Sound g atEnd (set q >>= k) p post :=
  h

protected theorem modify {change : σ → σ} (h : Sound g atEnd (k ⟨⟩) (change p) post) :
    Sound g atEnd (modify change >>= k) p post :=
  h

/-- Whatever is seen is seen in a session that can come to the ending. -/
protected theorem look {view : Session → α}
    (h : ∀ s : Session, s.Clean g → Sound g atEnd (f (view s)) p post) :
    Sound g atEnd (Reading.look view >>= f) p post :=
  fun s hs => h s hs.toClean s hs

/-- An action that changes nothing about what is left to read. -/
theorem step {a : Session → α} {next : Session → Session}
    (hrun : ∀ (s : Session) h, x.run p s h = ⟨.ok (a s), q, next s⟩)
    (hfits : ∀ s : Session, s.Fits g → (next s).Fits g)
    (hf : ∀ s : Session, (next s).Clean g → Sound g atEnd (f (a s)) q post) :
    Sound g atEnd (x >>= f) p post := by
  intro s hs h hclean
  have hle := x.precedes_run p s h
  rw [hrun] at hle
  rw [run_bind_of_ok (hrun s h) (hle.unread.trans h)] at hclean ⊢
  have ht : (next s).Clean g := hs.toClean.between hle ((f (a s)).precedes_run _ _ _) hclean
  exact hf s ht _ (hs.next hle ht (hfits s hs.fits)) _ hclean

protected theorem warn {problem : Problem} {location : Location}
    (h : Sound g atEnd (k ⟨⟩) p post) :
    Sound g atEnd (Reading.warn problem location >>= k) p post :=
  step (fun _ _ => rfl) (fun _ hs => hs.of_eq rfl rfl) fun _ _ => h

protected theorem modify_modes {change : Modes → Modes} (h : Sound g atEnd (k ⟨⟩) p post) :
    Sound g atEnd (Reading.modifyModes change >>= k) p post :=
  step (fun _ _ => rfl) (fun _ hs => hs.of_eq rfl rfl) fun _ _ => h

protected theorem declare {type : ValueType} {name : String} (h : Sound g atEnd (k ⟨⟩) p post) :
    Sound g atEnd (Reading.declare type name >>= k) p post :=
  step (fun _ _ => rfl) (fun _ hs => hs.of_eq rfl rfl) fun _ _ => h

protected theorem redeliver {token : Token} (h : Sound g atEnd (k ⟨⟩) p post) :
    Sound g atEnd (Reading.redeliver token >>= k) p post :=
  step (fun _ _ => rfl) (fun _ _ => Session.fits_of_pending_none rfl) fun _ _ => h

/-- New literals end up among the final ones. -/
protected theorem with_literals {make : Literals → α × Literals}
    {within : ∀ pool : Literals, pool.Within (make pool).2}
    (h : ∀ pool, (make pool).2.Within g.literals → Sound g atEnd (f (make pool).1) p post) :
    Sound g atEnd (Reading.withLiterals make within >>= f) p post :=
  step (fun _ _ => rfl) (fun _ hs => hs.of_eq rfl rfl) fun s hs => h s.literals hs.literals

/-- Behind an error anything may happen. -/
protected theorem report {problem : Problem} {location : Location} :
    Sound g atEnd (Reading.report problem location >>= k) p post := by
  intro s hs h hclean
  have hprecedes := (k ⟨⟩).precedes_run p
    { s with log := s.log.error problem.message location } h
  have hlt := hs.toClean.errors_lt_error (.refl s) problem.message location
  exact absurd hclean (hs.toClean.not_clean_of_lt (Nat.lt_of_lt_of_le hlt hprecedes.log.errors))

protected theorem refuse {token : Token} {location : Location} {post : Verdict → σ → Prop} :
    Sound g atEnd (Reading.refuse token location : Reading n σ Verdict) p post :=
  .report

protected theorem of_defect {outcome : Except Defect α}
    (h : ∀ a, outcome = .ok a → Sound g atEnd (f a) p post) :
    Sound g atEnd (Reading.ofDefect outcome >>= f) p post := by
  cases outcome with
  | ok a => exact h a rfl
  | error defect => exact fun _ hs _ _ => ⟨hs.fits, nofun⟩

protected theorem of_outcome {outcome : Except Abort α}
    (hok : ∀ a, outcome = .ok a → Sound g atEnd (f a) p post)
    (herror : ∀ reason, outcome = .error reason → reason ≠ .source) :
    Sound g atEnd (Reading.ofOutcome outcome >>= f) p post := by
  cases outcome with
  | ok a => exact hok a rfl
  | error reason => exact fun _ hs _ _ => ⟨hs.fits, herror reason rfl⟩

/-! ### Other readers -/

section Other

variable {y : Reading n τ α} {reader : τ} {inner : α → τ → Prop}

protected theorem within {k : Except Abort α × τ → Reading n σ β}
    (hy : Sound g atEnd y reader inner)
    (hok : ∀ a q, inner a q → Sound g atEnd (k (.ok a, q)) p post)
    (herror : ∀ reason q, reason ≠ .source → Sound g atEnd (k (.error reason, q)) p post) :
    Sound g atEnd (Reading.within reader y >>= k) p post := by
  intro s hs h hclean
  rcases hrun : y.run reader s h with ⟨outcome, q, t⟩
  have hready := hy.ready_run hs (h := h) (u := ((Reading.within reader y >>= k).run p s h).session)
  have hle := (y.precedes_run reader s h).unread
  have hwithin : (Reading.within reader y : Reading n σ _).run p s h =
      ⟨.ok (outcome, q), p, t⟩ := by
    simp only [Reading.within, hrun]
  rw [hrun] at hready hle
  rw [run_bind_of_ok hwithin (hle.trans h)] at hclean hready ⊢
  obtain ⟨ht, hinner⟩ := hready ((k (outcome, q)).precedes_run _ _ _) hclean
  cases outcome with
  | ok a => exact hok a q hinner t ht _ hclean
  | error reason => exact herror reason q hinner t ht _ hclean

protected theorem nested {k : α × τ → Reading n σ β} (hy : Sound g atEnd y reader inner)
    (hk : ∀ a q, inner a q → Sound g atEnd (k (a, q)) p post) :
    Sound g atEnd (Reading.nested reader y >>= k) p post := by
  refine .assoc (.within hy (fun a q ha => ?_) fun reason q hreason => ?_)
  · exact hk a q ha
  · refine .assoc (.of_outcome nofun fun _ h => ?_)
    cases h
    exact hreason

end Other

protected theorem attempt {k : Except Abort α → Reading n σ β} (hx : Sound g atEnd x p mid)
    (hok : ∀ a q, mid a q → Sound g atEnd (k (.ok a)) q post)
    (herror : ∀ reason q, reason ≠ .source → Sound g atEnd (k (.error reason)) q post) :
    Sound g atEnd (Reading.attempt x >>= k) p post := by
  intro s hs h hclean
  rcases hrun : x.run p s h with ⟨outcome, q, t⟩
  have hready := hx.ready_run hs (h := h) (u := ((Reading.attempt x >>= k).run p s h).session)
  have hle := (x.precedes_run p s h).unread
  have hattempt : (Reading.attempt x).run p s h = ⟨.ok outcome, q, t⟩ := by
    simp only [Reading.attempt, hrun]
  rw [hrun] at hready hle
  rw [run_bind_of_ok hattempt (hle.trans h)] at hclean hready ⊢
  obtain ⟨ht, hmid⟩ := hready ((k outcome).precedes_run _ _ _) hclean
  cases outcome with
  | ok a => exact hok a q hmid t ht _ hclean
  | error reason => exact herror reason q hmid t ht _ hclean

end Sound

/-! ### Scans -/

/-- The token that a reader hands back is the one that it was offered, or a name. -/
def Returns (token back : Token) : Prop :=
  back = token ∨ ∃ name, back = .name name

/-- The answer of a reader to a token: as long as it wants more the invariant holds, and otherwise
what the scan is to achieve. -/
def Answers (token : Token) (inv done : σ → Prop) (verdict : Verdict) (q : σ) : Prop :=
  match verdict with
  | .more => inv q
  | .done => done q
  | .handBack back => Returns token back ∧ done q
  | .giveUp back reason => Returns token back ∧ reason ≠ .source ∧ done q

theorem Answers.holds {token : Token} {inv : σ → Prop} {verdict : Verdict} {q : σ}
    (h : Answers token inv inv verdict q) : inv q := by
  cases verdict with
  | more | done => exact h
  | handBack back => exact h.2
  | giveUp back reason => exact h.2.2

/-- A name may be handed back whatever the token was. -/
theorem Answers.of_name {name : String} {token : Token} {inv done : σ → Prop} {verdict : Verdict}
    {q : σ} (h : Answers (.name name) inv done verdict q) : Answers token inv done verdict q := by
  have hback : ∀ back, Returns (.name name) back → Returns token back := by
    rintro back (rfl | hname)
    · exact Or.inr ⟨name, rfl⟩
    · exact Or.inr hname
  cases verdict with
  | more | done => exact h
  | handBack back => exact ⟨hback back h.1, h.2⟩
  | giveUp back reason => exact ⟨hback back h.1, h.2⟩

/-- A turn of a scan keeps the invariant, or it is the last and achieves what it should. -/
def Turn.Keeps (g : Ending) (inv done : σ → Prop) : Turn σ → Prop
  | .last r => Settles g (fun _ q => done q) r
  | .again q t => t.Clean g → t.Fits g ∧ inv q

theorem fits_put_back {token back : Token} {location : Location} (hback : Returns token back)
    (htoken : token.IsPosition g.env.extensions location → s.unread = 0) :
    (s.putBack back location).Fits g := by
  intro token' location' hpending hposition
  cases hpending
  obtain rfl | ⟨name, rfl⟩ := hback
  · have hunread := htoken hposition
    simp only [Session.unread, Scanner.unread] at hunread
    show s.scanner.rest = []
    exact List.eq_nil_of_length_eq_zero (by omega)
  · obtain ⟨code, hname, -⟩ := hposition
    cases hname

theorem Turn.of_answer_keeps {inv done : σ → Prop} {token : Token} {location : Location}
    {r : Result σ Verdict} (hr : Settles g (Answers token inv done) r)
    (htoken : token.IsPosition g.env.extensions location → r.session.unread = 0)
    (tolerantAfter : Option Bool) :
    (Turn.ofAnswer location tolerantAfter r).Keeps g inv done := by
  have hafter : token.IsPosition g.env.extensions location →
      (r.session.restoreNames tolerantAfter).unread = 0 := by
    rw [Session.unread_restore_names]
    exact htoken
  rcases r with ⟨outcome, q, t⟩
  cases outcome with
  | error reason =>
      intro hclean
      obtain ⟨hfits, hreason⟩ := hr (.of_restore_names hclean)
      exact ⟨hfits.restore_names _, hreason⟩
  | ok verdict =>
      cases verdict with
      | more =>
          intro hclean
          obtain ⟨hfits, hinv⟩ := hr (.of_restore_names hclean)
          exact ⟨hfits.restore_names _, hinv⟩
      | done =>
          intro hclean
          obtain ⟨hfits, hdone⟩ := hr (.of_restore_names hclean)
          exact ⟨hfits.restore_names _, hdone⟩
      | handBack back =>
          intro hclean
          obtain ⟨-, hback, hdone⟩ := hr (.of_restore_names (.of_put_back hclean))
          exact ⟨fits_put_back hback hafter, hdone⟩
      | giveUp back reason =>
          intro hclean
          obtain ⟨-, hback, hreason, -⟩ := hr (.of_restore_names (.of_put_back hclean))
          exact ⟨fits_put_back hback hafter, hreason⟩

section Scan

variable {mayEnd : σ → Bool} {inv done : σ → Prop}
  {feed : (m : Nat) → m < n → Token → Location → Reading m σ Verdict}

/-- At the end of the text the reader has what it should have, if it may end there. -/
theorem finish_settles (hend : mayEnd p = true → done p) (hfits : s.Fits g) :
    Settles g (fun _ q => done q) (finish mayEnd p s) := by
  intro _
  unfold finish
  split
  next h => exact ⟨hfits, hend h⟩
  next => exact ⟨hfits.of_eq rfl rfl, nofun⟩

/-- A token that is spelled `PositionCell` is the last one of the text. -/
theorem unread_pull_of_is_position {token : Token} {location : Location}
    {tolerantAfter : Option Bool} (hlacks : g.env.extensions.LacksPosition) (hfits : s.Fits g)
    (hpull : s.pull g.env = (.token token location tolerantAfter, t))
    (hposition : token.IsPosition g.env.extensions location) : t.unread = 0 := by
  have hitem : (s.scanner.pull g.env.extensions).item = .token token location tolerantAfter :=
    congrArg Prod.fst hpull
  have hscanner : (s.scanner.pull g.env.extensions).scanner = t.scanner :=
    congrArg (fun pulled => pulled.2.scanner) hpull
  rw [Session.unread, ← hscanner]
  cases hpending : s.scanner.pending with
  | none => exact Scanner.unread_of_is_position hpending hitem hposition hlacks
  | some waiting =>
      rw [Scanner.pull, hpending] at hitem ⊢
      cases hitem
      simp [Scanner.unread, Scanner.deliver, hfits _ _ hpending hposition]

/-- One turn of a scan whose reader keeps the invariant. -/
theorem turn_keeps (hlacks : g.env.extensions.LacksPosition)
    (hfeed : ∀ m hm token location p atEnd,
      (token.IsPosition g.env.extensions location → atEnd = true) → inv p →
      Sound g atEnd (feed m hm token location) p (Answers token inv done))
    (hend : ∀ p, mayEnd p = true → inv p → done p) (hs : s.Clean g) (hfits : s.Fits g) (hp : inv p)
    (h : s.unread ≤ n) : (turn g.env mayEnd feed p s h).Keeps g inv done := by
  have hprecedes := s.precedes_pull g.env
  have hpending : (s.pull g.env).2.scanner.pending = none :=
    s.scanner.pending_pull g.env.extensions
  have hlt := s.unread_pull_lt g.env
  rcases hpull : s.pull g.env with ⟨item, s'⟩
  rw [hpull] at hprecedes hpending hlt
  have hfits' : s'.Fits g := Session.fits_of_pending_none hpending
  cases item with
  | ended =>
      rw [turn_of_ended hpull]
      exact finish_settles (fun h => hend p h hp) hfits'
  | blank =>
      rw [turn_of_blank hpull]
      exact fun _ => ⟨hfits', hp⟩
  | malformed location =>
      rw [turn_of_malformed hpull]
      intro hclean
      have hcount := hs.errors_lt_error hprecedes Problem.syntaxError.message location
      exact absurd hclean (hs.not_clean_of_lt hcount)
  | token token location tolerantAfter =>
      replace hlt : s'.unread < s.unread := hlt nofun
      by_cases htext : token = .endOfText
      · subst htext
        rw [turn_of_end_of_text hpull]
        exact finish_settles (fun h => hend p h hp) hfits'
      by_cases hcomment : ∃ text, token = .comment text
      · obtain ⟨text, rfl⟩ := hcomment
        rw [turn_of_comment hpull]
        exact fun _ => ⟨hfits', hp⟩
      rw [turn_of_token hpull htext (by simpa using hcomment) (by omega)]
      -- A token that is spelled `PositionCell` is the last one, so nothing is left to read.
      have hlast : token.IsPosition g.env.extensions location → s'.unread = 0 :=
        unread_pull_of_is_position hlacks hfits hpull
      have hanswer := hfeed s'.unread (by omega) token location p (decide (s'.unread = 0))
        (by simpa using hlast) hp
      have hle := (feed s'.unread (by omega) token location).precedes_run p s' (Nat.le_refl _)
      have hsettles : Settles g (Answers token inv done)
          ((feed s'.unread (by omega) token location).run p s' (Nat.le_refl _)) :=
        fun hclean => hanswer s' ⟨hs.between hprecedes hle hclean, hfits', by simp⟩ _ hclean
      exact Turn.of_answer_keeps hsettles
        (fun hposition => Nat.eq_zero_of_le_zero (hlast hposition ▸ hle.unread)) tolerantAfter

/-- A scan whose reader keeps the invariant achieves what it should. -/
theorem Sound.scan (inv : σ → Prop) (hlacks : g.env.extensions.LacksPosition)
    (hfeed : ∀ m hm token location p atEnd,
      (token.IsPosition g.env.extensions location → atEnd = true) → inv p →
      Sound g atEnd (feed m hm token location) p (Answers token inv done))
    (hend : ∀ p, mayEnd p = true → inv p → done p) (hp : inv p) :
    Sound g atEnd (Reading.scan g.env mayEnd feed) p fun _ q => done q := by
  suffices hscan : ∀ (unread : Nat) (p : σ) (s : Session) (h : s.unread ≤ n), s.unread = unread →
      s.Clean g → s.Fits g → inv p →
      Settles g (fun _ q => done q) (scanFrom g.env mayEnd feed p s h) from
    fun s hs h => hscan _ p s h rfl hs.toClean hs.fits hp
  intro unread
  induction unread using Nat.strongRecOn with
  | ind unread ih =>
      intro p s h hunread hs hfits hp hclean
      have hkeeps := turn_keeps hlacks hfeed hend hs hfits hp h
      cases hturn : turn g.env mayEnd feed p s h with
      | last r =>
          rw [scan_from_of_last hturn] at hclean ⊢
          rw [hturn] at hkeeps
          exact hkeeps hclean
      | again q t =>
          have hlt := unread_lt_of_turn hturn
          have hle : s.Precedes t := (s.precedes_pull g.env).trans (precedes_of_turn hturn).2
          rw [scan_from_of_again hturn (by omega)] at hclean ⊢
          rw [hturn] at hkeeps
          have ht : t.Clean g := hs.between hle (precedes_scan_from _ _ _ _ _ _) hclean
          obtain ⟨hfits', hq⟩ := hkeeps ht
          exact ih t.unread (hunread ▸ hlt) q t (by omega) rfl ht hfits' hq hclean

end Scan

namespace Sound

/-- A reader that may be started on a token that has been delivered. -/
protected theorem starting {feed : Token → Location → Reading n σ Verdict}
    {scan : Reading n σ Unit} {inv done : σ → Prop} {first : Option (Token × Location)}
    (hfeed : ∀ token location, first = some (token, location) →
      Sound g atEnd (feed token location) p (Answers token inv done))
    (hscan : ∀ q, inv q → Sound g atEnd scan q fun _ q => done q) (hp : inv p) :
    Sound g atEnd (Reading.starting feed scan first) p fun _ q => done q := by
  cases first with
  | none => exact hscan p hp
  | some offered =>
      obtain ⟨token, location⟩ := offered
      have hfollow : Sound g atEnd (feed token location >>= Reading.follow scan) p
          fun _ q => done q := by
        refine .bind (hfeed token location rfl) fun verdict q hq => ?_
        cases verdict with
        | more => exact hscan q hq
        | done => exact .pure hq
        | handBack back => exact .pure hq.2
        | giveUp back reason => exact .abort hq.2.1
      rw [Reading.starting_some]
      split
      · exact hfollow
      · exact .redeliver hfollow

variable (hlacks : g.env.extensions.LacksPosition)

include hlacks

protected theorem skip_rest :
    Sound g atEnd (Reading.skipRest g.env : Reading n σ Unit) p fun _ q => q = p := by
  have hscan : Sound g atEnd (Reading.scan g.env (fun _ => true) fun _ _ token _ =>
      pure (if token = .special .newline then .done else .more) : Reading n Unit Unit) ()
      fun _ _ => True := by
    refine .scan (fun _ => True) hlacks (fun m _ token _ _ _ _ _ => .pure ?_)
      (fun _ _ _ => trivial) trivial
    split <;> trivial
  exact .nested hscan fun _ _ _ => .pure rfl

protected theorem skip_line :
    Sound g atEnd (Reading.skipLine g.env : Reading n σ Unit) p fun _ q => q = p := by
  refine .look fun s _ => ?_
  split
  · exact .pure rfl
  · exact .skip_rest hlacks

omit hlacks in
/-- No error is confined to its line, because there is none. -/
protected theorem recover_line {x : Reading n σ Unit} {done : σ → Prop} {env : Environment}
    (hx : Sound g atEnd x p fun _ q => done q) :
    Sound g atEnd (Reading.recoverLine env x) p fun read q => read = true ∧ done q := by
  refine .attempt hx (fun _ q hq => .pure ⟨rfl, hq⟩) fun reason q hreason => ?_
  cases reason with
  | source => exact absurd rfl hreason
  | _ => exact .abort nofun

end Sound

/-! ### Whole readings -/

/-- What a reading ends with that starts in this session. -/
def endingOf (env : Environment) (x : (n : Nat) → Reading n σ α) (p : σ)
    (s : Session) : Ending where
  env
  literals := (runOn x p s).session.literals
  locals := (runOn x p s).session.locals
  errors := s.log.errors

/-- A reading from the start of a text that counts no error leaves what it should. -/
theorem Sound.run_on {env : Environment} {x : (n : Nat) → Reading n σ α} {p : σ}
    {s : Session} {a : α} {post : α → σ → Prop}
    (hx : Sound (endingOf env x p s) false (x s.unread) p post)
    (hpending : s.scanner.pending = none) (hdowngrade : s.log.downgrade = false)
    (herrors : (runOn x p s).session.log.errors = s.log.errors)
    (hok : (runOn x p s).outcome = .ok a) : post a (runOn x p s).reader := by
  have hprecedes : s.Precedes (Reading.runOn x p s).session := (x s.unread).precedes_run p s _
  have hstart : s.Clean (endingOf env x p s) :=
    ⟨hprecedes.literals, hprecedes.locals, rfl, hdowngrade⟩
  have hfinal : (Reading.runOn x p s).session.Clean (endingOf env x p s) :=
    ⟨.refl _, .refl _, herrors, hprecedes.log.downgrade.trans hdowngrade⟩
  obtain ⟨-, hpost⟩ := hx s ⟨hstart, Session.fits_of_pending_none hpending, nofun⟩ _ hfinal
  change match (Reading.runOn x p s).outcome with
    | .ok a => post a (Reading.runOn x p s).reader
    | .error reason => reason ≠ .source at hpost
  rwa [hok] at hpost

end Reading

end QuestScript
