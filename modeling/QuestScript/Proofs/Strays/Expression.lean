import QuestScript.Proofs.Buttons
import QuestScript.Proofs.Strays.Statement

/-!
# An object in front of a variable

An object and an arrow in front of a variable have no meaning in an expression: they are dropped
with a warning. What is not dropped is the note that an arrow has been read. It does no harm as long
as there is no object, and a function takes it away, but the next object is read as if its arrow had
been there already (`fargoth_twice`).

The main statement is `Expression.read_with_object`: unless another object follows before a function
does, the two expressions have the same outcome, and they leave the same literals, local variables
and text, with the one warning in front of whatever else is recorded.
-/

namespace QuestScript

open Coupling Reading

namespace Expression

variable {n m : Nat} {env : Environment} {base base' : Log} {l l' : Location} {token : Token}
  {name : String} {p q : Expression} {s t : Session}

/-- The token calls a function where an operand may stand. -/
def isCall (env : Environment) : Token → Bool
  | .keyword (.builtin word) => !word.isStatement
  | .keyword (.extension code) => !(env.extensions.instruction? code).isSome
  | _ => false

/-- The name that a token is taken for. Instructions and the words that structure statements count
as names. -/
def nameOf? (env : Environment) (location : Location) : Token → Option String
  | .name name => some name
  | .keyword (.builtin word) => if word.isStatement then some location.literal else none
  | .keyword (.extension code) =>
    if (env.extensions.instruction? code).isSome then some (unquote location.literal) else none
  | _ => none

theorem feed_of_name_of? {nested : Reading n Expression Unit}
    (h : nameOf? env l token = some name) :
    feed env nested token l = feedName env name l := by
  cases token with
  | name =>
      cases h
      rfl
  | keyword word =>
      cases word with
      | builtin word =>
          obtain ⟨hword, hname⟩ : word.isStatement = true ∧ l.literal = name := by
            simpa [nameOf?] using h
          show (if word.isStatement then _ else _) = _
          rw [if_pos hword, hname]
      | extension code =>
          obtain ⟨hword, hname⟩ : (env.extensions.instruction? code).isSome = true ∧
              unquote l.literal = name := by
            simpa [nameOf?] using h
          show (if (env.extensions.instruction? code).isSome then _ else _) = _
          rw [if_pos hword, hname]
  | int | float | special | comment | endOfText => cases h

theorem name_of?_of_literal (h : l'.literal = l.literal) :
    nameOf? env l' token = nameOf? env l token := by
  unfold nameOf?
  rw [h]

theorem is_call_of_name_of? (h : nameOf? env l token = some name) : isCall env token = false := by
  cases token with
  | keyword word =>
      cases word with
      | builtin word =>
          have hword : word.isStatement = true := (by simpa [nameOf?] using h : _ ∧ _).1
          simp [isCall, hword]
      | extension code =>
          have hword : (env.extensions.instruction? code).isSome = true :=
            (by simpa [nameOf?] using h : _ ∧ _).1
          simp [isCall, hword]
  | int | float | name | special | comment | endOfText => rfl

theorem is_word_of_name_of? (h : nameOf? env l token = some name) :
    (∃ name, token = .name name) ∨ ∃ word, token = .keyword word := by
  cases token with
  | name name => exact Or.inl ⟨name, rfl⟩
  | keyword word => exact Or.inr ⟨word, rfl⟩
  | int | float | special | comment | endOfText => cases h

/-! ### Functions take the arrow away -/

/-- The keyword is no function, or every call of it that comes to its end is a call of a function,
behind which there is no arrow. -/
def CallsOrNot (env : Environment) (word : Keyword) : Prop :=
  (∀ (n : Nat) (nested : Reading n Expression Unit) l, call env nested l word = pure false) ∨
    ∀ (n : Nat) (nested : Reading n Expression Unit) l p,
      Yields (call env nested l word) p fun called q =>
        called = true ∧ q.arrow = false

theorem calls_or_not_builtin (word : Builtin) : CallsOrNot env (.builtin word) := by
  cases word with
  | getSquareRoot | random | scriptRunning =>
      exact Or.inr fun _ _ _ _ => .after fun _ _ => .modify (.modify (.pure ⟨rfl, rfl⟩))
  | menuMode | getSecondsPassed =>
      exact Or.inr fun _ _ _ _ => .modify (.modify (.pure ⟨rfl, rfl⟩))
  | getDistance =>
      exact Or.inr fun _ _ _ _ => .after fun _ _ =>
        .get (.after fun _ _ => .modify (.modify (.pure ⟨rfl, rfl⟩)))
  | getDisabled =>
      exact Or.inr fun _ _ _ _ => .get (.after fun _ _ => .modify (.modify (.pure ⟨rfl, rfl⟩)))
  | _ => exact Or.inl fun _ _ _ => rfl

theorem calls_or_not_extension (code : Int) : CallsOrNot env (.extension code) := by
  cases hfunction : env.extensions.function? code with
  | none =>
      refine Or.inl fun n nested l => ?_
      show callExtension env nested code l = pure false
      unfold callExtension
      rw [hfunction]
  | some function =>
      refine Or.inr fun n nested l p => ?_
      show Yields (callExtension env nested code l) p _
      unfold callExtension
      rw [hfunction]
      refine .get ?_
      dsimp only
      split
      · exact .after fun _ _ => .after fun _ _ => .after fun _ _ => .after fun _ _ =>
          .after fun _ _ => .get (.after fun _ _ => .modify (.after fun _ _ =>
            .modify (.modify (.pure ⟨rfl, rfl⟩))))
      · exact .after fun _ _ => .after fun _ _ => .after fun _ _ => .get (.after fun _ _ =>
          .modify (.after fun _ _ => .modify (.modify (.pure ⟨rfl, rfl⟩))))

theorem calls_or_not (env : Environment) (word : Keyword) : CallsOrNot env word := by
  cases word with
  | builtin word => exact calls_or_not_builtin word
  | extension code => exact calls_or_not_extension code

theorem call_arrow (nested : Reading n Expression Unit) (word : Keyword) (p : Expression) :
    Yields (call env nested l word) p
      fun called q => called = true → q.arrow = false := by
  obtain hcall | hcall := calls_or_not env word
  · rw [hcall]
    exact .pure (by rintro ⟨⟩)
  · exact (hcall n nested l p).imp fun _ _ h _ => h.2

theorem refuse_arrow (token : Token) (p : Expression) :
    Yields (refuse token l : Reading n Expression Verdict) p
      fun verdict q => verdict = .more → q.arrow = false := by
  refine .get ?_
  unfold Progress.refuse
  split
  · exact .pure (by rintro ⟨⟩)
  · exact .after fun _ _ => .abort (by trivial)

/-- If an expression without an object wants more behind a function, no arrow is left. -/
theorem arrow_of_call {nested : Reading n Expression Unit} (htoken : isCall env token = true)
    (hobject : p.object = "") {hs : s.unread ≤ n}
    (hfeed : (feed env nested token l).run p s hs = ⟨.ok .more, q, t⟩) : q.arrow = false := by
  have hfunction (word : Keyword) : Yields (feedFunction env nested word l) p
      fun verdict q => verdict = .more → q.arrow = false := by
    refine .modify (.get ?_)
    dsimp only
    rw [hobject, if_neg (by decide)]
    split
    · exact .pure (by rintro ⟨⟩)
    refine .after fun _ _ => .after fun _ _ => .bind (call_arrow nested word _) ?_
    intro called q hq
    cases called with
    | true => exact .pure fun _ => hq rfl
    | false => exact refuse_arrow _ _
  have hrun : ∃ word, (feed env nested token l).run p s hs =
      (feedFunction env nested word l).run p s hs := by
    cases token with
    | keyword word =>
        refine ⟨word, ?_⟩
        cases word with
        | builtin word =>
            show (if word.isStatement then _ else _ : Reading n Expression Verdict).run p s hs = _
            rw [if_neg (by simpa [isCall] using htoken)]
        | extension code =>
            show (if (env.extensions.instruction? code).isSome then _ else _ :
              Reading n Expression Verdict).run p s hs = _
            rw [if_neg (by simpa [isCall] using htoken)]
    | int | float | name | special | comment | endOfText => cases htoken
  obtain ⟨word, hword⟩ := hrun
  have hadmits := hfunction word s hs
  rw [← hword, hfeed] at hadmits
  exact hadmits rfl

/-! ### Expressions with an arrow that is left over -/

section Alike

variable {texts : Likeness} {place : Location → Location → Prop} {stale : Prop}

theorem is_call_eq {token' : Token} (h : token.Alike texts token') :
    isCall env token' = isCall env token := by
  cases h <;> rfl

theorem AlikeUpTo.object_eq (h : AlikeUpTo place stale p q) : q.object = p.object := by
  obtain ⟨location, arrow, -, -, rfl⟩ := h
  rfl

theorem AlikeUpTo.of_arrow (h : AlikeUpTo place stale p q) (hp : p.arrow = false)
    (hq : q.arrow = false) : Alike place p q := by
  obtain ⟨location, arrow, hlocation, -, rfl⟩ := h
  obtain rfl : arrow = p.arrow := hq.trans hp.symm
  exact ⟨location, hlocation, rfl⟩

end Alike

/-- Wherever the expression comes to an object, it has called a function before. -/
def CallsFirst (env : Environment) (p : Expression) (s : Session) : Prop :=
  ∀ tokens q t, Reading.Takes env (fun k => feed env (scan env k)) p s tokens q t → q.object ≠ "" →
    tokens.any (isCall env) = true

theorem CallsFirst.of_pass (h : CallsFirst env p s) {item : Item} {s' : Session}
    (hpull : s.pull env = (item, s')) (hpass : item.IsPassed) : CallsFirst env p s' :=
  fun tokens q t htakes => h tokens q t (.pass hpull hpass htakes)

/-- Behind a token that is no function there is no object yet. -/
theorem CallsFirst.of_take (h : CallsFirst env p s) {s' : Session} {tolerantAfter : Option Bool}
    (hpull : s.pull env = (.token token l tolerantAfter, s')) (hoffered : token.IsOffered)
    (hfeed : (feed env (scan env s'.unread) token l).run p s' (Nat.le_refl _) = ⟨.ok .more, q, t⟩)
    (htoken : isCall env token = false) :
    q.object = "" ∧ CallsFirst env q (t.restoreNames tolerantAfter) := by
  have htake : ∀ tokens r u, Reading.Takes env (fun k => feed env (scan env k)) q
      (t.restoreNames tolerantAfter) tokens r u → r.object ≠ "" →
      tokens.any (isCall env) = true := by
    intro tokens r u htakes hobject
    have hcalls := h (token :: tokens) r u (.take hpull hoffered.1 hoffered.2 hfeed htakes) hobject
    rwa [List.any_cons, htoken, Bool.false_or] at hcalls
  refine ⟨?_, htake⟩
  by_contra hobject
  cases htake [] q _ (.nil _ _) hobject

/-- What `CallsFirst.of_take` says, with blanks in front of the token. -/
theorem CallsFirst.of_yields {scanner next : Scanner} (h : CallsFirst env p s)
    (hyields : scanner.Yields env.extensions token l next) (hs : s.scanner = scanner)
    (hoffered : token.IsOffered)
    (hfeed : runOn (fun k => feed env (scan env k) token l) p { s with scanner := next } =
      ⟨.ok .more, q, t⟩)
    (htoken : isCall env token = false) : q.object = "" ∧ CallsFirst env q t := by
  induction hyields generalizing s with
  | token hpull =>
      subst hs
      exact h.of_take (Session.pull_of_quiet hpull) hoffered hfeed htoken
  | blank hpull _ ih =>
      subst hs
      exact ih (h.of_pass (Session.pull_of_quiet hpull) trivial) rfl hoffered hfeed htoken

/-- Follows the expression for some turns to see that there is no object before a function. -/
def callsFirst (env : Environment) : Nat → Expression → Session → Bool
  | 0, _, _ => false
  | turns + 1, p, s =>
    p.object.isEmpty && match s.pull env with
      | (.blank, s') | (.token (.comment _) _ _, s') => callsFirst env turns p s'
      | (.token token l tolerantAfter, s') =>
        isCall env token || match runOn (fun k => feed env (scan env k) token l) p s' with
          | ⟨.ok .more, q, t⟩ => callsFirst env turns q (t.restoreNames tolerantAfter)
          | _ => true
      | _ => true

theorem CallsFirst.of_calls_first (turns : Nat) (h : callsFirst env turns p s = true) :
    CallsFirst env p s := by
  intro tokens q t htakes
  -- Each step of the run uses up a turn of the test, which fails when there are none left.
  induction htakes generalizing turns with
  | nil p s =>
      cases turns with
      | zero => cases h
      | succ turns =>
          intro hobject
          rw [callsFirst, Bool.and_eq_true] at h
          exact absurd (by simpa using h.1) hobject
  | @pass p q s s' t item tokens hpull hpass _ ih =>
      cases turns with
      | zero => cases h
      | succ turns =>
          rw [callsFirst, hpull, Bool.and_eq_true] at h
          cases item with
          | blank => exact ih turns h.2
          | token token l tolerantAfter =>
              cases token with
              | comment text => exact ih turns h.2
              | int | float | name | keyword | special | endOfText => cases hpass
          | malformed | ended => cases hpass
  | @take p q r s s' t u token l tolerantAfter tokens hpull hend hcomment hfeed _ ih =>
      cases turns with
      | zero => cases h
      | succ turns =>
          intro hobject
          rw [List.any_cons, Bool.or_eq_true]
          rw [callsFirst, hpull, Bool.and_eq_true] at h
          have hstep : (isCall env token || callsFirst env turns q (t.restoreNames tolerantAfter)) =
              true := by
            cases token with
            | comment text => exact absurd rfl (hcomment text)
            | endOfText => exact absurd rfl hend
            | int | float | name | keyword | special =>
                have hcall := h.2
                dsimp only at hcall
                rwa [hfeed] at hcall
          rw [Bool.or_eq_true] at hstep
          exact hstep.imp id fun hrest => ih turns hrest hobject

section Coupling

variable {place : Location → Location → Prop} {C : ScanCoupling env place}

theorem scan_from_of_alike (hp : Alike C.spot p q) (hrel : C.rel s t) (hs : s.unread ≤ n)
    (ht : t.unread ≤ m) :
    C.Ends (AlikeUpTo C.spot True) Eq
      (scanFrom env (fun _ => false) (fun k (_ : k < n) => feed env (scan env k)) p s hs)
      (scanFrom env (fun _ => false) (fun k (_ : k < m) => feed env (scan env k)) q t ht) := by
  have hscan := scan_sim n m p q s t hs ht hp hrel
  rw [scan, scan, alike_eq] at hscan
  exact hscan.mono fun _ _ => .weaken

/-- An arrow that is left over makes no difference if no object follows before a function. -/
theorem scan_from_of_stale (hp : AlikeUpTo C.spot True p q) (hobject : p.object = "")
    (hcalls : CallsFirst env p s) (hrel : C.rel s t) (hs : s.unread ≤ n) (ht : t.unread ≤ m) :
    C.Ends (AlikeUpTo C.spot True) Eq
      (scanFrom env (fun _ => false) (fun k (_ : k < n) => feed env (scan env k)) p s hs)
      (scanFrom env (fun _ => false) (fun k (_ : k < m) => feed env (scan env k)) q t ht) := by
  induction hunread : s.unread + t.unread using Nat.strongRecOn generalizing p q s t with
  | ind unread ih =>
      refine .scan_from_of_pulls rfl hp hrel ?_ ?_
      · intro s' t' hs' ht' hlt hpass hrel'
        refine ih _ (by omega) hp hobject ?_ hrel' hs' ht' rfl
        obtain rfl | ⟨item, hpull, hitem⟩ := hpass
        · exact hcalls
        · exact hcalls.of_pass hpull hitem
      · intro s' t' token token' l l' _ hpull hpull' hoffered hoffered' htoken hplace hrel'
        refine .scan_from_of_tokens hpull hpull' hoffered hoffered' (fun _ _ =>
          feed_ends hp (fun _ => hobject) hrel' (reads_calls (scan_sim _ _)) htoken hplace)
          fun _ _ p' q' s₁ t₁ hs₁ ht₁ hrun hrun' hp' hrel₁ hlt => ?_
        cases hcall : isCall env token with
        | false =>
            obtain ⟨hobject', hcalls'⟩ := hcalls.of_take hpull hoffered hrun hcall
            refine ih _ ?_ hp' hobject' hcalls' hrel₁ hs₁ ht₁ rfl
            rw [Session.unread_restore_names, Session.unread_restore_names]
            omega
        | true =>
            have harrow := arrow_of_call hcall hobject hrun
            have harrow' := arrow_of_call ((is_call_eq htoken).trans hcall)
              (hp.object_eq.trans hobject) hrun'
            exact scan_from_of_alike (hp'.of_arrow harrow harrow') hrel₁ hs₁ ht₁

end Coupling

/-! ### An object in front of a variable -/

section Run

variable {r : String} {hs : s.unread ≤ n} {nested : Reading n Expression Unit}

/-- An object where an operand may stand. -/
theorem run_feed_object (hobject : p.object = "") (hnext : p.nextOperand = true)
    (hlocal : s.locals.typeOf? (Text.toLower r) = none)
    (hglobal : env.globalType? (Text.toLower r) = none) (hid : env.isId (Text.toLower r) = true) :
    (feed env nested (.name r) l).run p s hs =
      ⟨.ok .more, { p with progress := p.progress.start, first := false, object := Text.toLower r },
        s⟩ := by
  show (feedName env r l).run p s hs = _
  unfold feedName feedOperand start
  simp [hobject, hnext, hlocal, hglobal, hid]

theorem run_feed_arrow (hobject : p.object ≠ "") (harrow : p.arrow = false) :
    (feed env nested (.special .reference) l).run p s hs =
      ⟨.ok .more, { p with arrow := true }, s⟩ := by
  show (feedSpecial .reference l).run p s hs = _
  unfold feedSpecial feedJoint
  simp [hobject, harrow]

theorem run_feed_name_plain (hobject : p.object = "") :
    (feedName env name l).run p s hs = (feedOperand env name l).run p s hs := by
  unfold feedName
  rw [run_get_bind, hobject]
  rfl

/-- Behind an object and an arrow a name is read as if they were not there. -/
theorem run_feed_name_behind (hobject : p.object ≠ "") (harrow : p.arrow = true) :
    (feedName env name l).run p s hs =
      (feedOperand env name l).run { p with object := "" }
        { s with log := s.log.warning Problem.strayReference.message l } hs := by
  unfold feedName
  rw [run_get_bind, if_neg (by simpa using hobject), if_pos harrow]
  rfl

theorem run_feed_operand_start (hnext : p.nextOperand = true) :
    (feedOperand env name l).run p s hs =
      (feedOperand env name l).run { p with progress := p.progress.start, first := false } s
        hs := by
  unfold feedOperand start
  simp [hnext, Progress.start]

end Run

/-- What is read where the second text has an object and an arrow in front of the first. -/
theorem scan_with_object_ends {place : Location} {next : Scanner} {r v : String} {chars : List Char}
    (hobject : p.object = "") (hnext : p.nextOperand = true) (harrow : p.arrow = false)
    (hpending : s.scanner.pending = none) (htolerant : s.scanner.modes.tolerantNames = false)
    (hexpect : s.scanner.modes.expectName = false)
    (hfirst : s.scanner.Yields env.extensions token place next)
    (hv : nameOf? env place token = some v) (hname : Scanner.NameText env.extensions r chars)
    (hne : Text.toLower r ≠ "") (hid : env.isId (Text.toLower r) = true)
    (hlocal : s.locals.typeOf? (Text.toLower r) = none)
    (hglobal : env.globalType? (Text.toLower r) = none) (hcalls : CallsFirst env p s)
    (hs : s.unread ≤ n) (ht : (s.withObject chars).unread ≤ m) :
    ∃ place', (placesCoupling env s.log
        (s.log.warning Problem.strayReference.message place')).Ends
      (AlikeUpTo (fun l l' => l'.literal = l.literal) True) Eq
      ((scan env n).run p s hs) ((scan env m).run p (s.withObject chars) ht) := by
  let behind : Expression := { p with progress := p.progress.start, first := false }
  obtain ⟨column, ht₁, hscan'⟩ := exists_scan_from_with_object (fun _ => false)
    (fun k (_ : k < m) => feed env (scan env k)) p { behind with object := Text.toLower r }
    { behind with object := Text.toLower r, arrow := true } hname hpending htolerant hexpect
    (fun _ _ _ _ _ => run_feed_object hobject hnext hlocal hglobal hid)
    (fun _ _ _ _ _ => run_feed_arrow hne harrow) ht
  have hmodes : ({ s.scanner.modes with ignoreSpecial := false, expectName := false } : Modes) =
      { s.scanner.modes with ignoreSpecial := false } := by
    rw [← hexpect]
  obtain ⟨place', next', hfirst', hliteral, hdisplaced⟩ := hfirst.beside
    (t := s.scanner.begun s.scanner.rest column) (is_word_of_name_of? hv) hpending hpending rfl
    hexpect hmodes
  obtain ⟨s₁, hs₁, hpull, hscan⟩ := exists_scan_from_of_yields (fun _ => false)
    (fun k (_ : k < n) => feed env (scan env k)) p hfirst rfl hs
  obtain ⟨t₁, ht₂, hpull', hscan''⟩ := exists_scan_from_of_yields (fun _ => false)
    (fun k (_ : k < m) => feed env (scan env k))
    { behind with object := Text.toLower r, arrow := true } hfirst' rfl ht₁
  refine ⟨place', ?_⟩
  rw [scan, scan]
  show (placesCoupling env s.log _).Ends _ Eq (scanFrom env _ _ _ s hs)
    (scanFrom env _ _ _ (s.withObject chars) ht)
  rw [hscan, hscan', hscan'']
  have hrel : ({ s with scanner := next } : Session).Displaced s.log
      (s.log.warning Problem.strayReference.message place')
      { s with scanner := next', log := s.log.warning Problem.strayReference.message place' } :=
    ⟨hdisplaced, rfl, rfl, .warned _ _ _⟩
  have hoffered : token.IsOffered := by
    obtain ⟨name, rfl⟩ | ⟨word, rfl⟩ := is_word_of_name_of? hv
    · exact Token.is_offered_name name
    · exact Token.is_offered_keyword word
  -- Both scans have come to the name. They take it side by side, and then what follows.
  refine .scan_from_of_tokens hpull hpull' hoffered hoffered (fun _ _ => ?_)
    fun _ _ p' q' s₂ t₂ hs₂ ht₂ hrun _ hp' hrel' _ => ?_
  · rw [feed_of_name_of? hv, feed_of_name_of? ((name_of?_of_literal hliteral).trans hv),
      run_feed_name_plain hobject, run_feed_operand_start hnext, run_feed_name_behind hne rfl]
    refine feed_operand_sim rfl hliteral behind _ _ _ _ _ ?_ hrel
    exact ⟨p.location, true, rfl, Or.inl trivial, by rw [← hobject]⟩
  · obtain ⟨hobject', hcalls'⟩ := hcalls.of_yields hfirst rfl hoffered hrun (is_call_of_name_of? hv)
    exact scan_from_of_stale hp' hobject' hcalls' hrel' hs₂ ht₂

/-- Reads a whole expression. -/
def read (env : Environment) (argument optional : Bool) (s : Session) :
    Result Expression (ValueType × Code) :=
  runOn (fun n => do scan env n; finish) { argument, progress := { optional } } s

/-- An object in front of the first name of an expression is dropped with a warning. It has no other
effect, unless the expression comes to an object before it comes to a function. -/
theorem read_with_object (argument optional : Bool) {place : Location} {next : Scanner}
    {r v : String} {chars : List Char} (hpending : s.scanner.pending = none)
    (htolerant : s.scanner.modes.tolerantNames = false)
    (hexpect : s.scanner.modes.expectName = false)
    (hfirst : s.scanner.Yields env.extensions token place next)
    (hv : nameOf? env place token = some v) (hname : Scanner.NameText env.extensions r chars)
    (hne : Text.toLower r ≠ "") (hid : env.isId (Text.toLower r) = true)
    (hlocal : s.locals.typeOf? (Text.toLower r) = none)
    (hglobal : env.globalType? (Text.toLower r) = none)
    (hcalls : CallsFirst env { argument, progress := { optional } } s) :
    (read env argument optional (s.withObject chars)).outcome =
        (read env argument optional s).outcome ∧
      ∃ place', (read env argument optional s).session.Displaced s.log
        (s.log.warning Problem.strayReference.message place')
        (read env argument optional (s.withObject chars)).session := by
  obtain ⟨place', hscan⟩ := scan_with_object_ends rfl rfl rfl hpending htolerant hexpect hfirst hv
    hname hne hid hlocal hglobal hcalls (Nat.le_refl _) (Nat.le_refl _)
  have hread := Sim.bind_ends hscan fun _ _ _ => finish_sim_up_to
  obtain ⟨houtcome, _, hsession⟩ := scanner_coupling_ends hread
  exact ⟨houtcome, place', hsession⟩

end Expression

/-- An expression with a function and an object behind it. -/
def disabledSum : Session :=
  { scanner := Scanner.ofText "a + GetDisabled - fargoth->GetDisabled\n"
    locals := ({} : Locals).declare .short "a" }

theorem disabled_sum_with_object :
    Expression.CallsFirst fargothEnvironment {} disabledSum ∧
      (Expression.read fargothEnvironment false false
          (disabledSum.withObject ['f', 'a', 'r', 'g', 'o', 't', 'h'])).outcome =
        .ok (.long, [0, 0xc8000015, 0xc8000035, 0xc8000009, 0, 0xc8000038, 0xc800000b]) ∧
      ∃ place', (Expression.read fargothEnvironment false false disabledSum).session.Displaced {}
        (({} : Log).warning "Stray explicit reference" place')
        (Expression.read fargothEnvironment false false
          (disabledSum.withObject ['f', 'a', 'r', 'g', 'o', 't', 'h'])).session := by
  have hcalls : Expression.CallsFirst fargothEnvironment {} disabledSum :=
    .of_calls_first 6 (by decide +kernel)
  have hfirst : disabledSum.scanner.pull fargothEnvironment.extensions =
      ⟨.token (.name "a") ⟨0, 1, "a"⟩ none,
        (disabledSum.scanner.pull fargothEnvironment.extensions).scanner, []⟩ := by
    decide +kernel
  have houtcome : (Expression.read fargothEnvironment false false disabledSum).outcome =
      .ok (.long, [0, 0xc8000015, 0xc8000035, 0xc8000009, 0, 0xc8000038, 0xc800000b]) := by
    decide +kernel
  obtain ⟨hsame, place', hsession⟩ := Expression.read_with_object false false rfl rfl rfl
    (.token hfirst) rfl fargoth_name_text (by decide +kernel) (by decide +kernel)
    (by decide +kernel)
    (by decide +kernel) hcalls
  exact ⟨hcalls, hsame.trans houtcome, place', hsession⟩

/-- The arrow that has been dropped is still there when the next object comes: its own arrow is
refused, which it is not without the first object. -/
theorem fargoth_twice :
    (Expression.read fargothEnvironment false false
        { scanner := Scanner.ofText "a + fargoth->GetDisabled\n"
          locals := ({} : Locals).declare .short "a" }).outcome =
      .ok (.long, [0, 0xc8000015, 0, 0xc8000038, 0xc8000009]) ∧
      (Expression.read fargothEnvironment false false
        { scanner := Scanner.ofText "fargoth->a + fargoth->GetDisabled\n"
          locals := ({} : Locals).declare .short "a" }).outcome = .error .source := by
  decide +kernel

end QuestScript
