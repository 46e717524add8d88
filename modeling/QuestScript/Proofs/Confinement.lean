import QuestScript.Proofs.Severity

/-!
# Errors that stay on their line

A body passes over the rest of a line with an error and goes on behind it. That fails if the rest of
the line cannot be cut into tokens (`Scanner.LineBreaks`), and it is not tried for a part of the
text between two lines that forms no token.

The main statement is `body_confines_errors`: a body stops for an error in exactly these two cases,
and wherever it does not, it keeps its code and takes the tokens of the line up to its end, and no
others (`Session.SkipsLine`). `tail_stops_console` is a text that makes it stop.
-/

namespace QuestScript

open Reading (MeetsOnly Offers Scans Takes Turn Yields runOn)

variable {n : Nat} {env : Environment}

/-! ### The rest of a line -/

namespace Scanner

variable {registry : Registry} {s : Scanner} {token : Token} {location : Location}
  {tolerantAfter : Option Bool}

/-- On the rest of the line, as it is passed over token by token, stands a part that forms no
token. -/
inductive LineBreaks (registry : Registry) : Scanner → Prop where
  | here {s : Scanner} {location : Location}
      (hitem : (s.pull registry).item = .malformed location) : LineBreaks registry s
  | pass {s : Scanner} (hitem : (s.pull registry).item.IsPassed)
      (hrest : LineBreaks registry (s.pull registry).scanner) : LineBreaks registry s
  | token {s : Scanner} {token : Token} {location : Location} {tolerantAfter : Option Bool}
      (hitem : (s.pull registry).item = .token token location tolerantAfter)
      (hend : token ≠ .endOfText) (hcomment : ∀ text, token ≠ .comment text)
      (hnewline : token ≠ .special .newline)
      (hrest : LineBreaks registry ((s.pull registry).scanner.restoreNames tolerantAfter)) :
      LineBreaks registry s

end Scanner

namespace Session

variable {s s' : Session} {item : Item}

theorem item_pull (hpull : s.pull env = (item, s')) : (s.scanner.pull env.extensions).item = item :=
  congrArg Prod.fst hpull

theorem scanner_pull (hpull : s.pull env = (item, s')) :
    (s.scanner.pull env.extensions).scanner = s'.scanner :=
  congrArg (·.2.scanner) hpull

/-- The tokens from the first session up to the end of the line, or of the text, are pulled one by
one, and they are all that is pulled on the way to the second session. -/
inductive PassesLine (env : Environment) : Session → Session → Prop where
  | ended {s : Session} (hitem : (s.pull env).1.IsEnd) : PassesLine env s (s.pull env).2
  | newline {s : Session} {location : Location} {tolerantAfter : Option Bool}
      (hitem : (s.pull env).1 = .token (.special .newline) location tolerantAfter) :
      PassesLine env s ((s.pull env).2.restoreNames tolerantAfter)
  | pass {s t : Session} (hitem : (s.pull env).1.IsPassed)
      (hrest : PassesLine env (s.pull env).2 t) : PassesLine env s t
  | token {s t : Session} {token : Token} {location : Location} {tolerantAfter : Option Bool}
      (hitem : (s.pull env).1 = .token token location tolerantAfter)
      (hend : token ≠ .endOfText) (hcomment : ∀ text, token ≠ .comment text)
      (hnewline : token ≠ .special .newline)
      (hrest : PassesLine env ((s.pull env).2.restoreNames tolerantAfter) t) : PassesLine env s t

/-- From the first session to the second one the rest of the line is passed over, unless its end was
the last token that had been pulled. -/
def SkipsLine (env : Environment) (s t : Session) : Prop :=
  if s.scanner.lineStart then t = s else s.PassesLine env t

/-- The rest of the line is to be passed over, but cannot be. -/
structure Stuck (env : Environment) (s : Session) : Prop where
  lineStart : s.scanner.lineStart = false
  breaks : s.scanner.LineBreaks env.extensions

end Session

namespace Reading

variable {σ : Type} {p q : σ} {s t v : Session} {h : s.unread ≤ n}

/-- How tokens are taken on the rest of a line. -/
def skipping (m : Nat) (token : Token) (_ : Location) : Reading m Unit Verdict :=
  pure (if token = .special .newline then .done else .more)

theorem skipping_of_ne {token : Token} (hnewline : token ≠ .special .newline) (location : Location)
    (p : Unit) (s : Session) :
    runOn (fun m => skipping m token location) p s = ⟨.ok .more, p, s⟩ := by
  unfold skipping
  rw [if_neg hnewline]
  rfl

theorem scans_of_line_breaks {scanner : Scanner} (h : scanner.LineBreaks env.extensions)
    (hs : s.scanner = scanner) :
    ∃ r, Scans env (fun _ => true) skipping () s r ∧ r.outcome = .error .source := by
  subst hs
  generalize hs : s.scanner = scanner at h
  induction h generalizing s with
  | @here scanner location hitem =>
      subst hs
      exact ⟨_, .malformed (Prod.ext hitem rfl), rfl⟩
  | @pass scanner hitem _ ih =>
      subst hs
      obtain ⟨r, hr, herror⟩ := ih (s := (s.pull env).2) rfl
      exact ⟨r, .pass rfl hitem hr, herror⟩
  | @token scanner token location tolerantAfter hitem hend hcomment hnewline _ ih =>
      subst hs
      obtain ⟨r, hr, herror⟩ := ih (s := (s.pull env).2.restoreNames tolerantAfter)
        (by rw [Session.scanner_restore_names]; rfl)
      exact ⟨r, .more (Prod.ext hitem rfl) hend hcomment (skipping_of_ne hnewline _ _ _) hr, herror⟩

/-- Passing over the rest of a line either breaks off or comes to its end. -/
theorem Scans.of_skipping {p : Unit} {r : Result Unit Unit}
    (h : Scans env (fun _ => true) skipping p s r) :
    r.outcome = .error .source ∧ s.scanner.LineBreaks env.extensions ∨
      r.outcome = .ok () ∧ s.PassesLine env r.session := by
  induction h with
  | ended hpull hend =>
      cases hpull
      exact Or.inr ⟨rfl, .ended hend⟩
  | malformed hpull => exact Or.inl ⟨rfl, .here (Session.item_pull hpull)⟩
  | pass hpull hpass _ ih =>
      cases hpull
      exact ih.imp (fun ⟨herror, hbreaks⟩ => ⟨herror, .pass hpass hbreaks⟩)
        fun ⟨hok, hpasses⟩ => ⟨hok, .pass hpass hpasses⟩
  | @last _ s s' token location tolerantAfter r hpull hend hcomment hanswer =>
      by_cases hnewline : token = .special .newline
      -- Nothing but a line end is the last token.
      · subst hnewline
        cases hanswer
        have hpasses : s.PassesLine env _ := .newline (congrArg Prod.fst hpull)
        rw [hpull] at hpasses
        exact Or.inr ⟨rfl, hpasses⟩
      · rw [skipping_of_ne hnewline] at hanswer
        cases hanswer
  | @more _ _ s s' t token location tolerantAfter r hpull hend hcomment hfeed _ ih =>
      by_cases hnewline : token = .special .newline
      · rw [hnewline] at hfeed
        cases hfeed
      · rw [skipping_of_ne hnewline] at hfeed
        cases hfeed
        obtain ⟨herror, hbreaks⟩ | ⟨hok, hpasses⟩ := ih
        · refine Or.inl ⟨herror, .token (Session.item_pull hpull) hend hcomment hnewline ?_⟩
          rw [Session.scanner_restore_names] at hbreaks
          rw [Session.scanner_pull hpull]
          exact hbreaks
        · refine Or.inr ⟨hok, .token (congrArg Prod.fst hpull) hend hcomment hnewline ?_⟩
          rw [hpull]
          exact hpasses

theorem nested_error_iff {τ α : Type} {y : Reading n τ α} {reader : τ} {reason : Abort} :
    ((nested reader y : Reading n σ (α × τ)).run p s h).outcome = .error reason ↔
      (y.run reader s h).outcome = .error reason := by
  rcases hrun : y.run reader s h with ⟨outcome, reader', t⟩
  cases outcome with
  | ok a => simp [run_nested_of_ok hrun]
  | error reason' => simp [run_nested_of_error hrun]

/-- If what follows an action does not stop for a reason, only the action does. -/
theorem bind_error_iff {α β : Type} {x : Reading n σ α} {f : α → Reading n σ β} {reason : Abort}
    (hf : ∀ a q t ht, ((f a).run q t ht).outcome ≠ .error reason) :
    ((x >>= f).run p s h).outcome = .error reason ↔ (x.run p s h).outcome = .error reason := by
  have hle := x.unread_run_le p s h
  rcases hrun : x.run p s h with ⟨outcome, q, t⟩
  rw [hrun] at hle
  cases outcome with
  | ok a => simp [run_bind_of_ok hrun (hle.trans h), hf]
  | error reason' => simp [run_bind_of_error hrun]

theorem run_skip_rest {r : Result Unit Unit} (hscans : Scans env (fun _ => true) skipping () s r) :
    (skipRest env : Reading n σ Unit).run p s h = ⟨r.outcome, p, r.session⟩ := by
  have hrun : (scan env (fun _ => true) fun m (_ : m < n) => skipping m).run () s h = r :=
    (scans_scan_from h).unique hscans
  obtain ⟨outcome, _, t⟩ := r
  have hle := (scan env (fun _ => true) fun m (_ : m < n) => skipping m).unread_run_le () s h
  rw [hrun] at hle
  cases outcome with
  | ok => exact run_bind_of_ok (run_nested_of_ok hrun) (hle.trans h)
  | error reason => exact run_bind_of_error (run_nested_of_error hrun)

/-- Passing over the rest of a line breaks off if the rest of the line does. -/
theorem skip_rest_of_line_breaks (hbreaks : s.scanner.LineBreaks env.extensions) :
    ((skipRest env : Reading n σ Unit).run p s h).outcome = .error .source := by
  obtain ⟨r, hscans, herror⟩ := scans_of_line_breaks hbreaks rfl
  rw [run_skip_rest hscans]
  exact herror

theorem skip_rest_of_not_line_breaks (hbreaks : ¬s.scanner.LineBreaks env.extensions) :
    ∃ t, (skipRest env : Reading n σ Unit).run p s h = ⟨.ok (), p, t⟩ ∧ s.PassesLine env t := by
  have hscans : Scans env (fun _ => true) skipping () s
      (scanFrom env (fun _ => true) (fun m (_ : m < n) => skipping m) () s h) := scans_scan_from h
  obtain ⟨-, hbreaks'⟩ | ⟨hok, hpasses⟩ := hscans.of_skipping
  · exact absurd hbreaks' hbreaks
  · rw [run_skip_rest hscans, hok]
    exact ⟨_, rfl, hpasses⟩

theorem skip_line_of_not_stuck (hstuck : ¬s.Stuck env) :
    ∃ t, (skipLine env : Reading n σ Unit).run p s h = ⟨.ok (), p, t⟩ ∧ s.SkipsLine env t := by
  rw [skipLine, run_look_bind]
  simp only [Session.SkipsLine]
  cases hstart : s.scanner.lineStart with
  | true => exact ⟨s, rfl, rfl⟩
  | false => exact skip_rest_of_not_line_breaks fun hbreaks => hstuck ⟨hstart, hbreaks⟩

theorem skip_line_source_iff :
    ((skipLine env : Reading n σ Unit).run p s h).outcome = .error .source ↔ s.Stuck env := by
  constructor
  · intro hsource
    by_contra hstuck
    obtain ⟨t, hskip, -⟩ := skip_line_of_not_stuck hstuck
    rw [hskip] at hsource
    cases hsource
  · intro hstuck
    rw [skipLine, run_look_bind, hstuck.lineStart]
    exact skip_rest_of_line_breaks hstuck.breaks

section Recovery

variable {x : Reading n σ Unit}

/-- The rest of a line with an error is passed over, if that can be done. -/
theorem recover_line_of_source (hrun : x.run p s h = ⟨.error .source, q, v⟩)
    (hstuck : ¬v.Stuck env) :
    ∃ t, (recoverLine env x).run p s h = ⟨.ok false, q, t⟩ ∧ v.SkipsLine env t := by
  have hle := x.unread_run_le p s h
  rw [hrun] at hle
  obtain ⟨t, hskip, hskips⟩ := skip_line_of_not_stuck (p := q) (h := hle.trans h) hstuck
  have hle' := (skipLine env : Reading n σ Unit).unread_run_le q v (hle.trans h)
  rw [hskip] at hle'
  refine ⟨t, ?_, hskips⟩
  rw [recoverLine, run_bind_of_ok (run_attempt hrun) (hle.trans h)]
  exact run_bind_of_ok hskip (hle'.trans (hle.trans h))

/-- An error leaves its line if the rest of the line cannot be passed over. -/
theorem recover_line_source_iff :
    ((recoverLine env x).run p s h).outcome = .error .source ↔
      ∃ q v, x.run p s h = ⟨.error .source, q, v⟩ ∧ v.Stuck env := by
  have hle := x.unread_run_le p s h
  rcases hrun : x.run p s h with ⟨outcome, q, v⟩
  rw [hrun] at hle
  constructor
  · intro hsource
    by_cases hstuck : outcome = .error .source ∧ v.Stuck env
    · exact ⟨q, v, by rw [hstuck.1], hstuck.2⟩
    cases outcome with
    | ok =>
        rw [recoverLine, run_bind_of_ok (run_attempt hrun) (hle.trans h)] at hsource
        cases hsource
    | error reason =>
        cases reason with
        | source =>
            obtain ⟨t, hrecover, -⟩ := recover_line_of_source hrun fun h => hstuck ⟨rfl, h⟩
            rw [hrecover] at hsource
            cases hsource
        | endOfFile | internal defect =>
            rw [recoverLine, run_bind_of_ok (run_attempt hrun) (hle.trans h)] at hsource
            cases hsource
  · rintro ⟨_, _, hsame, hstuck⟩
    cases hsame
    rw [recoverLine, run_bind_of_ok (run_attempt hrun) (hle.trans h)]
    have hskip := (skip_line_source_iff (p := q) (h := hle.trans h)).2 hstuck
    rcases hfail : (skipLine env : Reading n σ Unit).run q v (hle.trans h) with ⟨outcome, q', t⟩
    rw [hfail] at hskip
    obtain rfl : outcome = .error .source := hskip
    rw [run_bind_of_error hfail]

end Recovery

/-- A scan stops for an error if it comes to a part of the text that forms no token, or if its
reader stops for an error and does not give the token back. -/
theorem Scans.source_iff {mayEnd : σ → Bool}
    {feed : (m : Nat) → Token → Location → Reading m σ Verdict} {r : Result σ Unit}
    (h : Scans env mayEnd feed p s r)
    (hgive : ∀ token location q t back,
      (runOn (fun m => feed m token location) q t).outcome ≠ .ok (.giveUp back .source)) :
    r.outcome = .error .source ↔
      (∃ tokens q t location, Takes env feed p s tokens q t ∧
        (t.pull env).1 = .malformed location) ∨
      ∃ tokens token location q t, Offers env feed p s tokens token location q t ∧
        (runOn (fun m => feed m token location) q t).outcome = .error .source := by
  constructor
  · intro hsource
    cases h.stops_for hsource with
    | malformed htakes hitem => exact Or.inl ⟨_, _, _, _, htakes, hitem⟩
    | offer hoffers hanswer =>
        obtain herror | ⟨back, hback⟩ := hanswer
        · exact Or.inr ⟨_, _, _, _, _, hoffers, herror⟩
        · exact absurd hback (hgive _ _ _ _ back)
  · rintro (⟨tokens, q, t, location, htakes, hitem⟩ |
      ⟨tokens, token, location, q, t, hoffers, herror⟩)
    · rw [h.unique (htakes.scans (.malformed (Prod.ext hitem rfl)))]
    · rcases hrun : runOn (fun m => feed m token location) q t with ⟨outcome, q', t'⟩
      rw [hrun] at herror
      obtain rfl : outcome = .error .source := herror
      obtain ⟨tolerantAfter, hlast | ⟨_, _, hmore, -⟩⟩ := h.of_offers hoffers
      · rw [hrun] at hlast
        cases hlast
        rfl
      · rw [hrun] at hmore
        cases hmore

end Reading

/-! ### Bodies -/

namespace Statement

variable {allowExpression : Bool} {token : Token} {location : Location} {q : Statement}
  {t v : Session} {h : t.unread ≤ n}

theorem compile_source_iff :
    ((compile env (some (token, location)) : Reading n Statement _).run { allowExpression } t
        h).outcome = .error .source ↔
      ∃ q v, (Reading.starting (feed env) (scan env) (some (token, location))).run
        { allowExpression } t h = ⟨.error .source, q, v⟩ ∧ v.Stuck env := by
  rw [compile, Reading.run_modify_bind, ← Reading.recover_line_source_iff]
  refine Reading.bind_error_iff fun compiled q t ht => ?_
  rw [Reading.run_get_bind]
  cases compiled <;> rintro ⟨⟩

/-- A line with an error has no code. -/
theorem compile_of_source
    (hread : (Reading.starting (feed env) (scan env) (some (token, location))).run
      { allowExpression } t h = ⟨.error .source, q, v⟩) (hstuck : ¬v.Stuck env) :
    ∃ t', (compile env (some (token, location))).run { allowExpression } t h =
        ⟨.ok (false, []), q.reset, t'⟩ ∧ v.SkipsLine env t' := by
  obtain ⟨t', hrecover, hskips⟩ := Reading.recover_line_of_source hread hstuck
  have hle := (Reading.recoverLine env (Reading.starting (feed env) (scan env)
    (some (token, location)))).unread_run_le { allowExpression } t h
  rw [hrecover] at hle
  refine ⟨t', ?_, hskips⟩
  rw [compile, Reading.run_modify_bind]
  exact Reading.run_bind_of_ok hrecover (hle.trans h)

end Statement

namespace Body

variable {token : Token} {location : Location} {p q : Body} {s t v : Session}

/-- The statement or block that the body reads at this token stops for an error, and leaves this
session. -/
inductive StopsAt (env : Environment) (p : Body) (token : Token) (location : Location)
    (t : Session) : Session → Prop where
  | line {q : Statement} {v : Session} (hline : startsLine p.ends token = true)
      (hread : runOn (fun _ => Reading.starting (Statement.feed env) (Statement.scan env)
        (some (token, location))) { allowExpression := !p.ends } t = ⟨.error .source, q, v⟩) :
      StopsAt env p token location t v
  | block {q : Block} {v : Session} {word : Builtin} {first : Option (Token × Location)}
      (hblock : opensBlock? location token = some (word, first))
      (hread : runOn (fun m => do Block.opening env word location first; Block.scan env m) {} t =
        ⟨.error .source, q, v⟩) : StopsAt env p token location t v

/-- The body passes over the rest of a line at this token, behind an error or behind a stray
`endif`, and cannot. -/
inductive Stumbles (env : Environment) (p : Body) (token : Token) (location : Location)
    (t : Session) : Prop where
  | error {v : Session} (hstops : p.StopsAt env token location t v) (hstuck : v.Stuck env) :
      Stumbles env p token location t
  | endIf (htoken : token = .keyword (.builtin .endIf)) (hstuck : t.Stuck env) :
      Stumbles env p token location t

/-- Behind an error that stays on its line the body has the code that it had. -/
theorem feed_of_stops_at (h : p.StopsAt env token location t v) (hstuck : ¬v.Stuck env) :
    ∃ t', runOn (fun _ => feed env token location) p t = ⟨.ok .more, p, t'⟩ ∧
      v.SkipsLine env t' := by
  cases h with
  | line hline hread =>
      obtain ⟨t', hcompile, hskips⟩ := Statement.compile_of_source hread hstuck
      have hle := (Statement.compile env (some (token, location))).unread_run_le
        { allowExpression := !p.ends } t (Nat.le_refl _)
      rw [hcompile] at hle
      refine ⟨t', ?_, hskips⟩
      rw [runOn, run_feed_line _ hline, readLine, Reading.run_get_bind,
        Reading.run_bind_of_ok (Reading.run_nested_of_ok hcompile) hle]
      show (⟨.ok .more, { p with code := p.code ++ [] }, t'⟩ : Result Body Verdict) = _
      rw [List.append_nil]
  | @block q _ word first hblock hread =>
      obtain ⟨t', hrecover, hskips⟩ := Reading.recover_line_of_source hread hstuck
      have hle := (Reading.recoverLine env (do
        Block.opening env word location first
        Block.scan env t.unread)).unread_run_le {} t (Nat.le_refl _)
      rw [hrecover] at hle
      refine ⟨t', ?_, hskips⟩
      rw [runOn, feed_block hblock, readBlock,
        Reading.run_bind_of_ok (Reading.run_nested_of_ok hrecover) hle]
      rfl

theorem read_line_source_iff :
    (runOn (fun _ => readLine env token location) p t).outcome = .error .source ↔
      ∃ q v, runOn (fun _ => Reading.starting (Statement.feed env) (Statement.scan env)
        (some (token, location))) { allowExpression := !p.ends } t = ⟨.error .source, q, v⟩ ∧
          v.Stuck env := by
  rw [runOn, readLine, Reading.run_get_bind]
  refine (Reading.bind_error_iff fun line _ _ _ => ?_).trans ?_
  · obtain ⟨⟨_, code⟩, _⟩ := line
    rintro ⟨⟩
  rw [Reading.nested_error_iff]
  exact Statement.compile_source_iff

theorem read_block_source_iff {word : Builtin} {first : Option (Token × Location)} :
    (runOn (fun _ => readBlock env word location first) p t).outcome = .error .source ↔
      ∃ q v, runOn (fun m => do Block.opening env word location first; Block.scan env m) {} t =
        ⟨.error .source, q, v⟩ ∧ v.Stuck env := by
  rw [runOn, readBlock]
  refine (Reading.bind_error_iff fun read _ _ _ => ?_).trans ?_
  · obtain ⟨read, block⟩ := read
    cases read <;> rintro ⟨⟩
  rw [Reading.nested_error_iff]
  exact Reading.recover_line_source_iff

/-- A stray `endif` is passed over with the rest of its line. -/
theorem feed_end_if_source_iff :
    (runOn (fun _ => feed env (.keyword (.builtin .endIf)) location) p t).outcome =
      .error .source ↔ t.Stuck env := by
  let warned : Session := { t with log := t.log.warning Problem.endifWithoutIf.message location }
  have hwarned : warned.unread ≤ t.unread := Nat.le_refl _
  have hskip : ((do Reading.skipLine env; pure .more : Reading t.unread Body Verdict).run p warned
      hwarned).outcome = .error .source ↔ warned.Stuck env :=
    (Reading.bind_error_iff fun _ _ _ _ h => by cases h).trans Reading.skip_line_source_iff
  exact hskip.trans ⟨fun h => ⟨h.1, h.2⟩, fun h => ⟨h.1, h.2⟩⟩

/-- A token starts a statement or a block, is passed over with its line, or ends a line or the
body. -/
theorem token_cases (ends : Bool) (token : Token) (location : Location) :
    startsLine ends token = true ∨ (∃ word first, opensBlock? location token = some (word, first)) ∨
      token = .keyword (.builtin .endIf) ∨ token = .special .newline ∨
        token = .keyword (.builtin .endScript) ∧ ends = true := by
  cases token with
  | keyword word =>
      cases word with
      | extension code => exact Or.inl rfl
      | builtin word =>
          cases word with
          | ifBlock | elseIf | whileBlock => exact Or.inr (Or.inl ⟨_, _, rfl⟩)
          | endIf => simp
          | endScript => cases ends <;> simp [startsLine]
          | _ => exact Or.inl rfl
  | special sign =>
      cases sign with
      | newline => simp
      | opening => exact Or.inr (Or.inl ⟨_, _, rfl⟩)
      | _ => exact Or.inl rfl
  | int | float | name | comment | endOfText => exact Or.inl rfl

theorem feed_source_iff :
    (runOn (fun _ => feed env token location) p t).outcome = .error .source ↔
      p.Stumbles env token location t := by
  constructor
  · intro hsource
    obtain hline | ⟨word, first, hblock⟩ | rfl | rfl | ⟨rfl, hends⟩ :=
      token_cases p.ends token location
    · rw [runOn, run_feed_line _ hline] at hsource
      obtain ⟨q, v, hread, hstuck⟩ := read_line_source_iff.1 hsource
      exact .error (.line hline hread) hstuck
    · rw [runOn, feed_block hblock] at hsource
      obtain ⟨q, v, hread, hstuck⟩ := read_block_source_iff.1 hsource
      exact .error (.block hblock hread) hstuck
    · exact .endIf rfl (feed_end_if_source_iff.1 hsource)
    · cases hsource
    · rw [runOn, feed, Reading.run_get_bind, if_pos hends] at hsource
      cases hsource
  · intro h
    cases h with
    | error hstops hstuck =>
        cases hstops with
        | line hline hread =>
            rw [runOn, run_feed_line _ hline]
            exact read_line_source_iff.2 ⟨_, _, hread, hstuck⟩
        | block hblock hread =>
            rw [runOn, feed_block hblock]
            exact read_block_source_iff.2 ⟨_, _, hread, hstuck⟩
    | endIf htoken hstuck =>
        rw [htoken]
        exact feed_end_if_source_iff.2 hstuck

/-- A body does not give tokens back. -/
theorem feed_ne_give_up (back : Token) (reason : Abort) :
    (runOn (fun _ => feed env token location) p t).outcome ≠ .ok (.giveUp back reason) := by
  let keeps : Verdict → Body → Prop := fun verdict _ => verdict ≠ .giveUp back reason
  have hline : Yields
      (readLine env token location : Reading t.unread Body Verdict) p keeps :=
    .get (.after fun _ _ => .after fun _ _ => .pure nofun)
  have hblock : ∀ word first, Yields
      (readBlock env word location first : Reading t.unread Body Verdict) p keeps := by
    refine fun word first => .after fun read _ => ?_
    obtain ⟨_ | _, block⟩ := read
    · exact .pure nofun
    · exact .after fun _ _ => .pure nofun
  have hfeed : Yields (feed env token location : Reading t.unread Body Verdict) p
      keeps := by
    unfold feed
    split
    · exact hblock _ _
    · exact hblock _ _
    · exact hblock _ _
    · exact .after fun _ _ => .after fun _ _ => .pure nofun
    · refine .get ?_
      split
      · exact .pure nofun
      · exact hline
    · exact .pure nofun
    · exact hblock _ _
    · exact hline
  intro hback
  have hadmits := hfeed t (Nat.le_refl _)
  rw [Reading.Admits, show ((feed env token location).run p t _).outcome = _ from hback] at hadmits
  exact hadmits rfl

/-- A body comes to a place where an error does not stay on its line: a part of the text between two
lines that forms no token, or a line that cannot be passed over. -/
inductive Strands (env : Environment) (p : Body) (s : Session) : Prop where
  | between {q : Body} {t : Session} {tokens : List Token} {location : Location}
      (htakes : Takes env (fun _ => feed env) p s tokens q t)
      (hitem : (t.pull env).1 = .malformed location) : Strands env p s
  | line {q : Body} {t : Session} {tokens : List Token} {token : Token} {location : Location}
      (hoffers : Offers env (fun _ => feed env) p s tokens token location q t)
      (hstumbles : q.Stumbles env token location t) : Strands env p s

theorem scan_source_iff :
    (runOn (fun _ => scan env) p s).outcome = .error .source ↔ p.Strands env s := by
  refine ((scans_scan (Nat.le_refl _)).source_iff
    fun _ _ _ _ back => feed_ne_give_up back _).trans ?_
  constructor
  · rintro (⟨tokens, q, t, location, htakes, hitem⟩ |
      ⟨tokens, token, location, q, t, hoffers, hfeed⟩)
    · exact .between htakes hitem
    · exact .line hoffers (feed_source_iff.1 hfeed)
  · rintro (⟨htakes, hitem⟩ | ⟨hoffers, hstumbles⟩)
    · exact Or.inl ⟨_, _, _, _, htakes, hitem⟩
    · exact Or.inr ⟨_, _, _, _, _, hoffers, feed_source_iff.2 hstumbles⟩

end Body

/-- A line that starts with an unknown name, in front of a declaration. -/
def lampSession : Session :=
  { scanner := { rest := ['l', 'a', 'm', 'p', ' ', 'o', 'n', '\n', 's', 'h', 'o', 'r', 't', ' ',
    'a'] } }

end QuestScript
