import QuestScript.Proofs.Defects
import QuestScript.Proofs.Strays.Names

/-!
# An object in front of a statement

Some statements take no object. If one stands in front of them nevertheless, it is dropped with a
warning, and the statement is read as it would be without it.

The main statement is `Statement.compile_with_object`: the two lines have the same outcome, and
they leave the same literals, local variables and text, with the one warning in front of whatever
else is recorded. It is not true of `StopScript`, which is no instruction behind an object
(`stop_script_with_object`).
-/

namespace QuestScript

open Coupling Reading

namespace Statement

variable {n m : Nat} {env : Environment} {base base' : Log} {l l' : Location} {object : String}
  {allowExpression : Bool} {p q : Statement} {s t : Session}

/-- The keyword starts a statement in front of which an object is dropped. -/
def dropsObject (env : Environment) : Keyword → Bool
  | .builtin word => [.setVariable, .messageBox, .leave, .short, .long, .float].contains word
  | .extension code => (env.extensions.instruction? code).any (!·.hasExplicit)

/-- Statements with the same code. -/
def SameCode (p q : Statement) : Prop :=
  q.code = p.code

/-- Statements that differ in the stage only. -/
def SameButStage (p q : Statement) : Prop :=
  ∃ stage, q = { p with stage }

theorem SameCode.of_alike {place : Location → Location → Prop} {C : ScanCoupling env place}
    (h : Alike C p q) : SameCode p q := by
  obtain ⟨_, _, rfl, -⟩ := h
  rfl

theorem SameCode.of_same_but_stage (h : SameButStage p q) : SameCode p q := by
  obtain ⟨_, rfl⟩ := h
  rfl

/-! ### Statements of the language -/

theorem run_feed_plain {word : Builtin} (hword : dropsObject env (.builtin word) = true)
    (hs : s.unread ≤ n) :
    (feed env (.keyword (.builtin word)) l : Reading n Statement Verdict).run
        { allowExpression } s hs =
      (feedPlainKeyword env (.builtin word) l).run { allowExpression } s hs := by
  cases allowExpression <;> cases word <;> first | rfl | cases hword

theorem run_feed_plain_behind {word : Builtin} (hword : dropsObject env (.builtin word) = true)
    (hs : s.unread ≤ n) :
    (feed env (.keyword (.builtin word)) l : Reading n Statement Verdict).run
        { stage := .reference, allowExpression, object } s hs =
      (feedPlainKeyword env (.builtin word) l).run { allowExpression }
        { s with log := s.log.warning Problem.strayReference.message l } hs := by
  cases allowExpression <;> cases word <;> first | rfl | cases hword

/-! ### Calls of the host -/

/-- What is emitted behind the arguments of a call. -/
def finishCall (instruction : Extension) (found : Nat × Code) : Reading n Statement Verdict := do
  emit found.2
  let statement ← get
  emitFragment (instruction.call statement.object found.1)
    (instruction.within_call statement.object found.1)
  goto .complete

/-- The part of a call behind its keyword. -/
def readCall (env : Environment) (code : Int) (instruction : Extension) (location : Location) :
    Reading n Statement Verdict :=
  readCallArguments env code instruction location >>= fun found =>
    found.elim (pure .done) (finishCall instruction)

theorem feed_call_eq {code : Int} {instruction : Extension}
    (hcode : env.extensions.instruction? code = some instruction) :
    (feedCall env code instruction l : Reading n Statement Verdict) =
      dropReference instruction l >>= fun _ => readCall env code instruction l := by
  unfold feedCall readCall
  congr
  funext _
  congr
  funext found
  cases found with
  | none => rfl
  | some found => simp only [emit_fragment_call_instruction hcode, Option.elim_some, finishCall]

/-- An instruction of the host is read as a call at the start of a line and behind an arrow. -/
theorem run_feed_extension {code : Int} {instruction : Extension}
    (hcode : env.extensions.instruction? code = some instruction)
    (hp : p.stage = .begin ∨ p.stage = .reference) (hs : s.unread ≤ n) :
    (feed env (.keyword (.extension code)) l : Reading n Statement Verdict).run p s hs =
      (dropReference instruction l >>= fun _ => readCall env code instruction l).run p s hs := by
  have hcall : feedExtension? env (.extension code) l =
      some <$> (feedCall env code instruction l : Reading n Statement Verdict) := by
    unfold feedExtension?
    simp only [hcode]
  have hother : feedOtherKeyword env (.extension code) l =
      (feedCall env code instruction l : Reading n Statement Verdict) := by
    unfold feedOtherKeyword
    rw [hcall, bind_map_left]
    exact bind_pure _
  show (feedKeyword env (.extension code) l : Reading n Statement Verdict).run p s hs = _
  unfold feedKeyword
  rw [run_get_bind, ← feed_call_eq hcode]
  obtain hp | hp := hp <;>
    rw [hp] <;> exact congrArg (fun x : Reading n Statement Verdict => x.run p s hs) hother

theorem run_feed_call {code : Int} {instruction : Extension}
    (hcode : env.extensions.instruction? code = some instruction) (hs : s.unread ≤ n) :
    (feed env (.keyword (.extension code)) l : Reading n Statement Verdict).run
        { allowExpression } s hs =
      (readCall env code instruction l).run { allowExpression } s hs :=
  run_feed_extension hcode (Or.inl rfl) hs

theorem run_feed_call_behind {code : Int} {instruction : Extension}
    (hcode : env.extensions.instruction? code = some instruction)
    (hexplicit : instruction.hasExplicit = false) (hs : s.unread ≤ n) :
    (feed env (.keyword (.extension code)) l : Reading n Statement Verdict).run
        { stage := .reference, allowExpression, object } s hs =
      (readCall env code instruction l).run { stage := .reference, allowExpression }
        { s with log := s.log.warning Problem.strayReference.message l } hs := by
  have hdrop : (dropReference instruction l : Reading n Statement Unit).run
      { stage := .reference, allowExpression, object } s hs =
      ⟨.ok (), { stage := .reference, allowExpression },
        { s with log := s.log.warning Problem.strayReference.message l }⟩ := by
    unfold dropReference
    rw [run_get_bind, hexplicit]
    rfl
  rw [run_feed_extension hcode (Or.inr rfl)]
  exact run_bind_of_ok hdrop hs

variable {place : Location → Location → Prop} {C : ScanCoupling env place}

theorem modify_same_but_stage {change : Statement → Statement}
    (hchange : ∀ statement stage, change { statement with stage } =
      { change statement with stage }) :
    C.Sim SameButStage Eq (modify change : Reading n Statement PUnit)
      (modify change : Reading m Statement PUnit) := by
  refine .modify ?_
  rintro statement _ ⟨stage, rfl⟩
  exact ⟨stage, hchange statement stage⟩

theorem read_call_sim (code : Int) (instruction : Extension) (hplace : place l l')
    (hdown : isPositionCell l = true → ∃ C', C.Tolerates C') :
    C.Sim SameButStage (C.Agrees l l')
      (readCall env code instruction l : Reading n Statement Verdict)
      (readCall env code instruction l' : Reading m Statement Verdict) := by
  refine .seq (read_call_arguments_sim code instruction hplace hdown) fun found => ?_
  cases found with
  | none => exact .pure .done
  | some found =>
      refine .seq (modify_same_but_stage fun _ _ => rfl) fun _ => .bind .get ?_
      rintro statement _ ⟨stage, rfl⟩
      refine .seq (.seq (.with_literals (.call _ _ _) _ _) fun fragment =>
        .seq (modify_same_but_stage fun _ _ => rfl) fun _ => .seq (.of_defect _) fun _ => .pure rfl)
        fun _ => ?_
      refine .seq (.modify ?_) fun _ => .pure .more
      rintro statement _ ⟨stage, rfl⟩
      exact ⟨.complete, rfl⟩

/-- A call after which more is wanted is complete. -/
theorem stage_of_read_call {code : Int} {instruction : Extension} {hs : s.unread ≤ n}
    (h : ((readCall env code instruction l : Reading n Statement Verdict).run p s hs).outcome =
      .ok .more) :
    ((readCall env code instruction l : Reading n Statement Verdict).run p s hs).reader.stage =
      .complete := by
  have hadmits : Yields
      (readCall env code instruction l : Reading n Statement Verdict) p
      fun verdict q => verdict = .more → q.stage = .complete := by
    refine .after fun found q => ?_
    cases found with
    | none => exact .pure (by rintro ⟨⟩)
    | some found =>
        exact .after fun _ _ => .get (.after fun _ _ => .modify (.pure fun _ => rfl))
  have hrun := hadmits s hs
  rw [Admits, h] at hrun
  exact hrun rfl

/-! ### Lines -/

/-- The first keyword of a statement, with an object in front of it and without. -/
theorem feed_with_object_ends (allowExpression : Bool) (object : String) {word : Keyword}
    (hword : dropsObject env word = true) (hplace : l'.literal = l.literal) (hs : s.unread ≤ n)
    (ht : t.unread ≤ m) (hrel : s.Displaced base base'
      { t with log := t.log.warning Problem.strayReference.message l' }) :
    (placesCoupling env base base').Ends SameCode ((placesCoupling env base base').Agrees l l')
        ((feed env (.keyword word) l : Reading n Statement Verdict).run { allowExpression } s hs)
        ((feed env (.keyword word) l' : Reading m Statement Verdict).run
          { stage := .reference, allowExpression, object } t ht) ∧
      (((feed env (.keyword word) l : Reading n Statement Verdict).run
          { allowExpression } s hs).outcome = .ok .more →
        Alike (placesCoupling env base base')
          ((feed env (.keyword word) l : Reading n Statement Verdict).run
            { allowExpression } s hs).reader
          ((feed env (.keyword word) l' : Reading m Statement Verdict).run
            { stage := .reference, allowExpression, object } t ht).reader) := by
  let warned : Session := { t with log := t.log.warning Problem.strayReference.message l' }
  cases word with
  | builtin word =>
      rw [run_feed_plain hword, run_feed_plain_behind hword]
      have hends := feed_plain_keyword_sim (n := n) (m := m) (C := placesCoupling env base base')
        scanner_coupling_recovers (.builtin word) hplace _ _ s warned hs ht
        (.refl { allowExpression })
        hrel
      exact ⟨hends.mono fun _ _ => SameCode.of_alike, fun _ => scanner_coupling_readers hends⟩
  | extension code =>
      obtain ⟨instruction, hcode, hexplicit⟩ := (Option.any_eq_true _ _).1 hword
      rw [run_feed_call hcode, run_feed_call_behind hcode (by simpa using hexplicit)]
      have hends := read_call_sim (n := n) (m := m) (C := placesCoupling env base base') code
        instruction hplace (fun _ => scanner_coupling_tolerates) { allowExpression }
        { stage := .reference, allowExpression } s warned hs ht ⟨.reference, rfl⟩ hrel
      -- The call is read in another stage, but behind it both statements are complete.
      refine ⟨hends.mono fun _ _ => SameCode.of_same_but_stage, fun hmore => ?_⟩
      have hstage := stage_of_read_call hmore
      have hstage' := stage_of_read_call (scanner_coupling_more hends hmore)
      obtain ⟨stage, hreader⟩ := scanner_coupling_readers hends
      rw [hreader] at hstage' ⊢
      rw [show stage = .complete from hstage', ← hstage]
      exact .refl _

theorem run_feed_object {name : String} (hid : env.isId (Text.toLower name) = true)
    (hs : s.unread ≤ n) :
    (feed env (.name name) l : Reading n Statement Verdict).run { allowExpression } s hs =
      ⟨.ok .more, { stage := .object, allowExpression, object := Text.toLower name }, s⟩ := by
  show (feedFirstName env name l : Reading n Statement Verdict).run { allowExpression } s hs = _
  unfold feedFirstName
  dsimp only
  rw [run_look_bind, if_pos hid]
  rfl

/-- Two lines of which the second has an object in front of the first keyword. -/
theorem scan_with_object_ends (allowExpression : Bool) {word : Keyword} {place : Location}
    {next : Scanner} {name : String} {chars : List Char} (hpending : s.scanner.pending = none)
    (htolerant : s.scanner.modes.tolerantNames = false)
    (hexpect : s.scanner.modes.expectName = false)
    (hfirst : s.scanner.Yields env.extensions (.keyword word) place next)
    (hword : dropsObject env word = true) (hname : Scanner.NameText env.extensions name chars)
    (hid : env.isId (Text.toLower name) = true) (hs : s.unread ≤ n)
    (ht : (s.withObject chars).unread ≤ m) :
    ∃ place', (placesCoupling env s.log
        (s.log.warning Problem.strayReference.message place')).Ends SameCode Eq
      ((scan env : Reading n Statement Unit).run { allowExpression } s hs)
      ((scan env : Reading m Statement Unit).run { allowExpression } (s.withObject chars) ht) := by
  obtain ⟨column, ht₁, hscan'⟩ := exists_scan_from_with_object (fun _ => false)
    (fun _ (_ : _ < m) => feed env) { allowExpression }
    { stage := .object, allowExpression, object := Text.toLower name }
    { stage := .reference, allowExpression, object := Text.toLower name }
    hname hpending htolerant hexpect (fun _ _ _ _ _ => run_feed_object hid _)
    (fun _ _ _ _ _ => rfl) ht
  have hmodes : ({ s.scanner.modes with ignoreSpecial := false, expectName := false } : Modes) =
      { s.scanner.modes with ignoreSpecial := false } := by
    rw [← hexpect]
  obtain ⟨place', next', hfirst', hliteral, hnext⟩ := hfirst.beside
    (t := s.scanner.begun s.scanner.rest column) (Or.inr ⟨word, rfl⟩) hpending hpending rfl hexpect
    hmodes
  obtain ⟨s₁, hs₁, hpull, hscan⟩ := exists_scan_from_of_yields (fun _ => false)
    (fun _ (_ : _ < n) => feed env) { allowExpression } hfirst rfl hs
  obtain ⟨t₁, ht₂, hpull', hscan''⟩ := exists_scan_from_of_yields (fun _ => false)
    (fun _ (_ : _ < m) => feed env)
    { stage := .reference, allowExpression, object := Text.toLower name } hfirst' rfl ht₁
  refine ⟨place', ?_⟩
  show (placesCoupling env s.log _).Ends SameCode Eq (scanFrom env _ _ _ s hs)
    (scanFrom env _ _ _ (s.withObject chars) ht)
  rw [hscan, hscan', hscan'']
  have hrel : ({ s with scanner := next } : Session).Displaced s.log
      (s.log.warning Problem.strayReference.message place')
      { s with scanner := next', log := s.log.warning Problem.strayReference.message place' } :=
    ⟨hnext, rfl, rfl, .warned _ _ _⟩
  have hoffered : (Token.keyword word).IsOffered := ⟨by rintro ⟨⟩, by rintro _ ⟨⟩⟩
  have hfeed (k k' : Nat) (hk : ({ s with scanner := next } : Session).unread ≤ k)
      (hk' : ({ s with scanner := next' } : Session).unread ≤ k') :=
    feed_with_object_ends allowExpression (Text.toLower name) (t := { s with scanner := next' })
      hword
      hliteral hk hk' hrel
  -- The keyword drops the object. From there on the two statements are alike.
  refine .scan_from_of_tokens hpull hpull' hoffered hoffered (fun _ _ => (hfeed _ _ _ _).1)
    fun _ _ p' q' s₂ t₂ hs₂ ht₂ hrun hrun' _ hrel _ => ?_
  have hmore := (hfeed _ _ (Nat.le_refl _) (Nat.le_refl _)).2
  rw [hrun, hrun'] at hmore
  have hscan := scan_sim (n := n) (m := m) scanner_coupling_recovers scanner_coupling_tolerates
    p' q'
    _ _ hs₂ ht₂ (hmore rfl) hrel
  exact hscan.mono fun _ _ => SameCode.of_alike

/-- An object in front of a statement that takes none is dropped with a warning, and has no other
effect. -/
theorem compile_with_object {word : Keyword} {place : Location} {next : Scanner} {name : String}
    {chars : List Char} (p : Statement) (hpending : s.scanner.pending = none)
    (htolerant : s.scanner.modes.tolerantNames = false)
    (hexpect : s.scanner.modes.expectName = false)
    (hfirst : s.scanner.Yields env.extensions (.keyword word) place next)
    (hword : dropsObject env word = true) (hname : Scanner.NameText env.extensions name chars)
    (hid : env.isId (Text.toLower name) = true) :
    (runOn (fun _ => compile env none) p (s.withObject chars)).outcome =
        (runOn (fun _ => compile env none) p s).outcome ∧
      ∃ place', (runOn (fun _ => compile env none) p s).session.Displaced s.log
        (s.log.warning Problem.strayReference.message place')
        (runOn (fun _ => compile env none) p (s.withObject chars)).session := by
  obtain ⟨place', hscan⟩ := scan_with_object_ends p.allowExpression hpending htolerant
    hexpect hfirst hword hname hid (Nat.le_refl _) (Nat.le_refl _)
  have hcompile : (placesCoupling env s.log
      (s.log.warning Problem.strayReference.message place')).Ends SameCode Eq
      (runOn (fun _ => compile env none) p s)
      (runOn (fun _ => compile env none) p (s.withObject chars)) := by
    unfold runOn compile
    rw [run_modify_bind, run_modify_bind]
    refine Sim.bind_ends (Sim.recover_line_ends scanner_coupling_recovers hscan)
      fun compiled _ hcompiled => ?_
    cases hcompiled
    refine .bind .get fun statement statement' hcode => ?_
    cases compiled with
    | true => exact .seq (.set rfl) fun _ => .pure (congrArg (Prod.mk true) (Eq.symm hcode))
    | false => exact .seq (.set rfl) fun _ => .pure rfl
  obtain ⟨houtcome, _, hsession⟩ := scanner_coupling_ends hcompile
  exact ⟨houtcome, place', hsession⟩

end Statement

/-- There is an object with the id `fargoth`. -/
def fargothEnvironment : Environment := { ids := ["fargoth"] }

theorem fargoth_name_text :
    Scanner.NameText fargothEnvironment.extensions "fargoth" ['f', 'a', 'r', 'g', 'o', 't', 'h'] :=
  @Scanner.NameText.word _ 'f' ['a', 'r', 'g', 'o', 't', 'h'] (by decide +kernel) (by decide)
    (by decide +kernel) (by decide +kernel)

/-- A line that sets a local variable. -/
def assignmentLine : Session :=
  { scanner := Scanner.ofText "set a to 5\n", locals := ({} : Locals).declare .short "a" }

theorem assignment_line_with_object :
    Statement.dropsObject fargothEnvironment (.builtin .setVariable) = true ∧
      (runOn (fun _ => Statement.compile fargothEnvironment none) {}
          (assignmentLine.withObject ['f', 'a', 'r', 'g', 'o', 't', 'h'])).outcome =
        .ok (true, [0, 0, 0xc8000004, 0xc8000000]) ∧
      ∃ place', (runOn (fun _ => Statement.compile fargothEnvironment none) {}
          assignmentLine).session.Displaced {}
            (({} : Log).warning "Stray explicit reference" place')
        (runOn (fun _ => Statement.compile fargothEnvironment none) {}
          (assignmentLine.withObject ['f', 'a', 'r', 'g', 'o', 't', 'h'])).session := by
  have hword : Statement.dropsObject fargothEnvironment (.builtin .setVariable) = true := by decide
  have hfirst : assignmentLine.scanner.pull fargothEnvironment.extensions =
      ⟨.token (.keyword (.builtin .setVariable)) ⟨0, 3, "set"⟩ none,
        (assignmentLine.scanner.pull fargothEnvironment.extensions).scanner, []⟩ := by
    decide +kernel
  have houtcome : (runOn (fun _ => Statement.compile fargothEnvironment none) {}
      assignmentLine).outcome = .ok (true, [0, 0, 0xc8000004, 0xc8000000]) := by
    decide +kernel
  obtain ⟨hsame, place', hsession⟩ := Statement.compile_with_object {} rfl rfl rfl (.token hfirst)
    hword fargoth_name_text (by decide +kernel)
  exact ⟨hword, hsame.trans houtcome, place', hsession⟩

/-- Behind an object `StopScript` is no instruction: the line is given up, which it is not without
the object. -/
theorem stop_script_with_object :
    (runOn (fun _ => Statement.compile fargothEnvironment none) {}
        { scanner := Scanner.ofText "StopScript x\n" }).outcome = .ok (true, [0, 0xc8000030]) ∧
      (runOn (fun _ => Statement.compile fargothEnvironment none) {}
        { scanner := Scanner.ofText "fargoth->StopScript x\n" }).outcome = .ok (false, []) := by
  decide +kernel

end QuestScript
