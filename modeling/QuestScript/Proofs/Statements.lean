import Mathlib.Data.List.TakeWhile
import QuestScript.Proofs.Values
import QuestScript.Statement

/-!
# Statements leave the stack as it was

The code of a statement leaves nothing on the stack. While a statement is read this holds of the
code that it has so far, except for message boxes, whose values and buttons wait on the stack until
the line ends (`Statement.Settled`).

The main statement is `Statement.compile_sound`. A special case are instructions that are spelled
`PositionCell`, whose arguments are read without regard to errors. If the host has no such
instruction they stand at the end of the text, and there are no arguments to read
(`Statement.read_call_arguments_sound`).
-/

namespace QuestScript

variable {g : Ending} {atEnd : Bool} {n : Nat}

open Reading (Sound Answers)

/-! ### Reading past the end -/

namespace Reading

variable {σ τ α β : Type}

/-- At the end of the text the action counts an error, whatever the mode. -/
def Starves (x : Reading n σ α) : Prop :=
  ∀ p s h, s.unread = 0 → s.log.errors < (x.run p s h).session.log.errors

namespace Starves

theorem sound {x : Reading n σ α} (hx : x.Starves) {p : σ} {post : α → σ → Prop} :
    Sound g true x p post :=
  fun s hs h hclean => absurd hclean (hs.toClean.not_clean_of_lt (hx p s h (hs.unread rfl)))

theorem bind {x : Reading n σ α} (hx : x.Starves) (f : α → Reading n σ β) :
    (x >>= f).Starves := by
  intro p s h hs
  have hlt := hx p s h hs
  have hle := (x.precedes_run p s h).unread
  rcases hrun : x.run p s h with ⟨outcome, q, t⟩
  rw [hrun] at hlt hle
  cases outcome with
  | error reason =>
      rw [run_bind_of_error hrun]
      exact hlt
  | ok a =>
      rw [run_bind_of_ok hrun (hle.trans h)]
      exact Nat.lt_of_lt_of_le hlt ((f a).precedes_run _ _ _).log.errors

theorem nested {y : Reading n τ α} (hy : y.Starves) (reader : τ) :
    (Reading.nested reader y : Reading n σ (α × τ)).Starves :=
  bind (fun _ s h hs => hy reader s h hs) _

theorem modify_modes {change : Modes → Modes} {k : Unit → Reading n σ β} (hk : (k ()).Starves) :
    (Reading.modifyModes change >>= k).Starves :=
  fun p s h hs => hk p (s.mapModes change) h hs

theorem attempt_downgraded {x : Reading n σ α} (hx : x.Starves) :
    (Reading.attempt (Reading.downgraded x)).Starves :=
  fun p s h hs => hx p { s with log := { s.log with downgrade := true } } h hs

end Starves

/-- A scan that may not end with the text. -/
theorem scan_starves (env : Environment)
    (feed : (m : Nat) → m < n → Token → Location → Reading m σ Verdict) :
    (scan env (fun _ => false) feed).Starves := by
  intro p s h hs
  have hpull : s.pull env = (.ended, s) := by
    simp only [Session.unread, Scanner.unread, Nat.add_eq_zero_iff] at hs
    have hrest : s.scanner.rest = [] := List.eq_nil_of_length_eq_zero (by omega)
    have hpending : s.scanner.pending = none := by
      cases hp : s.scanner.pending with
      | none => rfl
      | some waiting => simp [hp] at hs
    simp [Session.pull, Scanner.pull, hpending, hrest]
  have hscan : scanFrom env (fun _ => false) feed p s h = finish (fun _ => false) p s :=
    scan_from_of_last (turn_of_ended hpull)
  show s.log.errors < (scanFrom env (fun _ => false) feed p s h).session.log.errors
  rw [hscan]
  exact Nat.lt_succ_self _

end Reading

namespace ArgumentList

open Reading (Starves)

variable {σ : Type} {expression : Reading n Expression Unit}

theorem read_letter_starves (env : Environment) (hexpression : expression.Starves) (manner : Manner)
    (optional : Bool) (letter : Char) :
    (readLetter env expression manner optional letter : Reading n σ Found).Starves ∨
      ∃ defect, (readLetter env expression manner optional letter : Reading n σ Found) =
        Reading.abort (.internal defect) := by
  unfold readLetter
  split
  · exact Or.inl (.modify_modes (.bind (.nested (Reading.scan_starves _ _) _) _))
  · exact Or.inl (.modify_modes (.bind (.nested (Reading.scan_starves _ _) _) _))
  · exact Or.inl (.modify_modes (.bind (.nested (Reading.scan_starves _ _) _) _))
  · exact Or.inl (.bind (.nested hexpression _) _)
  · exact Or.inl (.bind (.nested (Reading.scan_starves _ _) _) _)
  · exact Or.inl (.bind (.nested (Reading.scan_starves _ _) _) _)
  · split
    · unfold readExpression
      split
      · exact Or.inl (.modify_modes (.bind (.nested hexpression _) _))
      · exact Or.inl (.bind (.nested hexpression _) _)
    · exact Or.inr ⟨_, rfl⟩

/-- At the end of the text only a signature without arguments can be read. -/
theorem read_letters_starves (env : Environment) (hexpression : expression.Starves)
    (manner : Manner) (optional : Bool) (count : Nat) (parts : List Code) (letters : List Char) :
    ((readLetters env expression manner optional count parts letters : Reading n σ (Nat × Code)) =
        pure (count, parts.flatten) ∧ ∀ letter ∈ letters, letter = '/') ∨
      (readLetters env expression manner optional count parts letters :
        Reading n σ (Nat × Code)).Starves ∨
      ∃ defect, (readLetters env expression manner optional count parts letters :
        Reading n σ (Nat × Code)) = Reading.abort (.internal defect) := by
  induction letters generalizing optional with
  | nil => exact Or.inl ⟨rfl, nofun⟩
  | cons letter rest ih =>
      unfold readLetters
      split
      next hletter =>
        obtain ⟨heq, hall⟩ | h := ih true
        · exact Or.inl ⟨heq, List.forall_mem_cons.2 ⟨hletter, hall⟩⟩
        · exact Or.inr h
      next =>
        right
        obtain h | ⟨defect, h⟩ : (readLetter env expression manner optional letter :
            Reading n σ Found).Starves ∨ _ :=
          read_letter_starves env hexpression manner optional letter
        · exact Or.inl (h.bind _)
        · rw [h]
          exact Or.inr ⟨defect, rfl⟩

end ArgumentList

/-! ### Texts of message boxes -/

namespace MessageFormat

theorem letter_mem (placeholder : Placeholder) : placeholder.letter ∈ ['S', 'l', 'f'] := by
  cases placeholder <;> decide

/-- A format asks for nothing but values that have to be there. -/
theorem mem_signature {format : String} {letter : Char}
    (h : letter ∈ (signature format).toList) : letter ∈ ['S', 'l', 'f'] := by
  rw [signature, String.toList_ofList, List.mem_map] at h
  obtain ⟨spec, -, rfl⟩ := h
  exact letter_mem spec.placeholder

theorem ordered_signature (format : String) : Signature.Ordered (signature format) := by
  refine List.pairwise_of_forall_mem_list fun letter hletter _ _ hdropped => ?_
  have hmem := mem_signature ((List.takeWhile_sublist _).subset hletter)
  simp only [List.mem_cons, List.not_mem_nil, or_false] at hmem
  obtain rfl | rfl | rfl := hmem <;> simp at hdropped

theorem kinds_signature (format : String) (count : Nat) :
    Signature.kinds (signature format) count = Signature.mandatory (signature format) := by
  have hnone : (signature format).toList.dropWhile (· != '/') = [] := by
    refine List.dropWhile_eq_nil_iff.2 fun letter hletter => ?_
    rw [bne_iff_ne]
    rintro rfl
    exact absurd (mem_signature hletter) (by decide)
  rw [Signature.kinds, Signature.optional, hnone, List.filterMap_nil, List.take_nil,
    List.append_nil]

/-- What is shown on the console is one value of its type. -/
theorem mandatory_report (type : ValueType) :
    Signature.mandatory (signature (if type.isFloat then "%f" else "%d")) = [.ofType type] := by
  have hfloat : signature "%f" = "f" := by cbv
  have hlong : signature "%d" = "l" := by cbv
  cases type with
  | short | long =>
      rw [if_neg (by decide), hlong]
      rfl
  | float =>
      rw [if_pos (by decide), hfloat]
      rfl

end MessageFormat

/-! ### Declarations -/

namespace Declaration

variable {declaration : Declaration} {token : Token} {location : Location}

theorem feed_sound (hlacks : g.env.extensions.LacksPosition) :
    Sound g atEnd (feed g.env token location : Reading n Declaration Verdict) declaration
      (Answers token (fun _ => True) fun _ => True) := by
  have hdeclare : ∀ (type : ValueType) (name : String),
      Sound g atEnd (declare type name location : Reading n Declaration Verdict) declaration
        (Answers token (fun _ => True) fun _ => True) := by
    intro type name
    refine .look fun s _ => ?_
    split
    · exact .warn (.set (.pure trivial))
    · exact .declare (.set (.pure trivial))
  unfold feed
  refine .get ?_
  split
  · exact .pure trivial
  · exact .refuse
  · exact .warn (.bind (.skip_rest hlacks) fun _ _ _ => .pure trivial)
  · exact hdeclare _ _
  · exact hdeclare _ _
  · exact .report
  · split
    · exact .set (.pure trivial)
    · exact .refuse
  · exact .refuse

theorem read_from_sound (hlacks : g.env.extensions.LacksPosition) (word : Keyword) :
    Sound g atEnd (readFrom g.env word location : Reading n Declaration Unit) declaration
      fun _ _ => True := by
  refine .starting (fun _ _ _ => feed_sound hlacks) (fun q _ => ?_) trivial
  exact .scan (fun _ => True) hlacks (fun _ _ _ _ _ _ _ _ => feed_sound hlacks)
    (fun _ _ _ => trivial) trivial

end Declaration

/-! ### Statements -/

namespace Statement

/-- What waits on the stack at a stage, the topmost value first: the buttons of a message box and
the values for its text. -/
def waiting (statement : Statement) : List Kind :=
  match statement.stage with
  | .button | .buttonComma =>
    List.replicate statement.buttons .text ++
      Signature.mandatory (MessageFormat.signature statement.name)
  | _ => []

/-- The code leaves what waits at this stage, and the local variable to set is there. -/
structure Settled (c : Surroundings) (statement : Statement) : Prop where
  carries : Carries c statement.code [] statement.waiting
  target : ∀ type index, statement.stage = .localTarget type index →
    index < (c.locals.names type).length

/-- The code leaves nothing. -/
def Complete (c : Surroundings) (statement : Statement) : Prop :=
  Carries c statement.code [] []

/-- What a statement answers to a token. -/
abbrev Orderly (g : Ending) (token : Token) : Verdict → Statement → Prop :=
  Answers token (Settled g.toSurroundings) (Complete g.toSurroundings)

/-- What a statement answers to a token that may be of no use, in which case nothing changes. -/
def OrderlyIfAny (g : Ending) (token : Token) (statement : Statement) :
    Option Verdict → Statement → Prop
  | some verdict, q => Orderly g token verdict q
  | none, q => q = statement

variable {statement : Statement} {token : Token} {location : Location}

/-- A stage at which nothing waits. -/
theorem Complete.settled {c : Surroundings} (h : statement.Complete c)
    (hbutton : statement.stage ≠ .button) (hcomma : statement.stage ≠ .buttonComma)
    (htarget : ∀ type index, statement.stage = .localTarget type index →
      index < (c.locals.names type).length) : statement.Settled c := by
  refine ⟨?_, htarget⟩
  have hwaiting : statement.waiting = [] := by
    unfold waiting
    split
    next hstage => exact absurd hstage hbutton
    next hstage => exact absurd hstage hcomma
    next => rfl
  rw [hwaiting]
  exact h

theorem Settled.complete {c : Surroundings} {stage : Stage} (h : statement.Settled c)
    (hstage : statement.stage = stage) (hbutton : stage ≠ .button)
    (hcomma : stage ≠ .buttonComma) : statement.Complete c := by
  subst hstage
  have hcarries := h.carries
  unfold waiting at hcarries
  split at hcarries
  next hstage => exact absurd hstage hbutton
  next hstage => exact absurd hstage hcomma
  next => exact hcarries

theorem Complete.emit {c : Surroundings} {statement' : Statement} {code : Code}
    (h : statement.Complete c) (hcode : Carries c code [] [])
    (heq : statement'.code = statement.code ++ code) : statement'.Complete c := by
  unfold Complete
  rw [heq]
  exact h.append hcode

/-- To the token in hand the statement gives an answer that leaves it in order. -/
abbrev AnswersInOrder (n : Nat) (g : Ending) (atEnd : Bool) (x : Reading n Statement Verdict)
    (statement : Statement) (token : Token) : Prop :=
  Sound g atEnd x statement (Orderly g token)

/-- Goes on to a stage at which nothing waits. -/
theorem goto_sound {stage : Stage} (h : statement.Complete g.toSurroundings)
    (hbutton : stage ≠ .button) (hcomma : stage ≠ .buttonComma)
    (htarget : ∀ type index, stage = .localTarget type index →
      index < (g.locals.names type).length) :
    AnswersInOrder n g atEnd (goto stage) statement token :=
  .modify (.pure (Complete.settled h hbutton hcomma htarget))

/-- Emits a fragment that has no defect. -/
theorem emit_fragment_sound {β : Type} {make : Literals → Fragment × Literals}
    {within : ∀ pool : Literals, pool.Within (make pool).2} {k : Unit → Reading n Statement β}
    {post : β → Statement → Prop}
    (h : ∀ pool, (make pool).2.Within g.literals → (make pool).1.defect = none →
      Sound g atEnd (k ()) { statement with code := statement.code ++ (make pool).1.code } post) :
    Sound g atEnd (emitFragment make within >>= k) statement post := by
  refine .assoc (.with_literals fun pool hpool => .assoc (.modify (.assoc ?_)))
  exact .of_defect fun _ hcode => h pool hpool (Fragment.defect_of_to_except hcode)

theorem feed_target_sound (name : String) (h : statement.Complete g.toSurroundings) :
    AnswersInOrder n g atEnd (feedTarget g.env name) statement token := by
  refine .look fun s hs => .modify ?_
  split
  next type htype =>
    refine goto_sound h nofun nofun ?_
    intro type' index hstage
    cases hstage
    exact Locals.index_of?_lt hs.locals htype
  next =>
    split
    · exact goto_sound h nofun nofun nofun
    · exact goto_sound h nofun nofun nofun

theorem feed_member?_sound (token : Token) (name : String)
    (h : statement.Complete g.toSurroundings) :
    Sound g atEnd (feedMember? g.env name : Reading n Statement (Option Verdict)) statement
      (OrderlyIfAny g token statement) := by
  refine .get ?_
  split
  · exact .modify (.map (goto_sound h nofun nofun nofun))
  · exact .pure rfl

section Values

variable (hc : g.Addressable) (hhost : g.env.extensions.Orderly)

include hc hhost

theorem read_arguments_sound {signature : String} (manner : ArgumentList.Manner)
    (hordered : Signature.Ordered signature) :
    Sound g atEnd (readArguments g.env signature manner : Reading n Statement (Nat × Code))
      statement fun found q =>
        q = statement ∧ found.1 ≤ (Signature.optional signature).length ∧
          Carries g.toSurroundings found.2 [] (Signature.kinds signature found.1) :=
  ArgumentList.read_sound (fun _ he => Expression.scan_sound hc hhost he) hc hhost.lacksPosition
    manner hordered

theorem feed_message_sound (text : String) (h : statement.Complete g.toSurroundings) :
    AnswersInOrder n g atEnd (feedMessage g.env text) statement token := by
  have hgoto : ∀ statement : Statement,
      Carries g.toSurroundings statement.code []
        (Signature.mandatory (MessageFormat.signature text)) →
      Sound g atEnd (do
        modify ({ · with name := text, buttons := 0 })
        goto .button : Reading n Statement Verdict) statement (Orderly g token) :=
    fun statement hcode => .modify (.modify (.pure ⟨hcode, nofun⟩))
  unfold feedMessage
  dsimp only
  split
  next hempty =>
    have hnone : MessageFormat.signature text = "" := by simpa using hempty
    refine hgoto statement ?_
    rw [hnone]
    exact h
  next =>
    refine .bind (read_arguments_sound hc hhost _ (MessageFormat.ordered_signature text)) ?_
    rintro ⟨count, code⟩ q ⟨rfl, -, hcode⟩
    rw [MessageFormat.kinds_signature] at hcode
    refine .modify (hgoto _ ?_)
    have hadd := Carries.add h hcode
    rwa [List.append_nil] at hadd

omit hhost in
theorem feed_button_sound (text : String) (h : statement.Settled g.toSurroundings)
    (hstage : statement.stage = .button ∨ statement.stage = .buttonComma) :
    AnswersInOrder n g atEnd (feedButton text) statement token := by
  refine .assoc (.with_literals fun pool hpool => .modify (.modify (.modify (.pure ⟨?_, nofun⟩))))
  have hwaiting : statement.waiting = List.replicate statement.buttons .text ++
      Signature.mandatory (MessageFormat.signature statement.name) := by
    obtain hstage | hstage := hstage <;> rw [waiting, hstage]
  have hcarries := h.carries
  rw [hwaiting] at hcarries
  exact hcarries.add (Assembly.push_string_emits hc text pool hpool)

/-- The value of an assignment. -/
theorem read_value_sound :
    Sound g atEnd (readValue g.env : Reading n Statement (ValueType × Code)) statement
      fun found q => q = statement ∧ Carries g.toSurroundings found.2 [] [.ofType found.1] := by
  have hread : Sound g atEnd (do
      Expression.scan g.env n
      Expression.finish) ({} : Expression) fun found _ =>
        Carries g.toSurroundings found.2 [] [.ofType found.1] :=
    .bind (Expression.scan_sound hc hhost (Expression.well_typed_of_fresh rfl rfl rfl))
      fun _ _ he => Expression.finish_sound he
  exact .nested hread fun _ _ hfound => .pure ⟨rfl, hfound⟩

theorem feed_assignment_sound (word : Keyword) (h : statement.Settled g.toSurroundings) :
    AnswersInOrder n g atEnd (feedAssignment g.env word location) statement (.keyword word) := by
  unfold feedAssignment
  refine .get ?_
  split
  next type index hstage =>
    refine .bind (read_value_sound hc hhost) ?_
    rintro ⟨valueType, value⟩ q ⟨rfl, hvalue⟩
    have hcomplete := h.complete hstage nofun nofun
    refine .modify (goto_sound ?_ nofun nofun nofun)
    exact hcomplete.emit (Assembly.assign_to_local_carries hc (h.target _ _ hstage) hvalue) rfl
  next type hstage =>
    refine .bind (read_value_sound hc hhost) ?_
    rintro ⟨valueType, value⟩ q ⟨rfl, hvalue⟩
    have hcomplete := h.complete hstage nofun nofun
    refine .assoc (.with_literals fun pool hpool => .modify (goto_sound ?_ nofun nofun nofun))
    exact hcomplete.emit (Assembly.assign_to_global_emits hc hvalue pool hpool) rfl
  next type reference hstage =>
    refine .bind (read_value_sound hc hhost) ?_
    rintro ⟨valueType, value⟩ q ⟨rfl, hvalue⟩
    have hcomplete := h.complete hstage nofun nofun
    refine .assoc (.with_literals fun pool hpool => .modify (goto_sound ?_ nofun nofun nofun))
    exact hcomplete.emit (Assembly.assign_to_member_emits hc hvalue _ pool hpool) rfl
  next => exact .report
  next => exact .refuse

omit hhost in
/-- The object that has been read leaves the expression in order. -/
theorem offer_object_sound :
    Sound g atEnd (offerObject g.env statement location : Reading n Expression Unit) {}
      fun _ e => e.WellTyped g.toSurroundings := by
  have hfresh : Expression.WellTyped g.toSurroundings {} :=
    Expression.well_typed_of_fresh rfl rfl rfl
  unfold offerObject
  split
  · exact .pure hfresh
  · have hname : Sound g atEnd
        (Expression.feedName g.env statement.object location : Reading n Expression Verdict) {}
        (Expression.Orderly g (.name statement.object)) :=
      Expression.feed_name_sound hc statement.object hfresh
    refine .bind hname fun _ e he => ?_
    exact .bind (Expression.feed_special_sound _ he.holds) fun _ e he => .pure he.holds

theorem read_shown_sound {first : Option Token} (hfirst : ∀ back, first = some back →
      Reading.Returns token back) (h : statement.Complete g.toSurroundings) :
    AnswersInOrder n g atEnd (readShown g.env first location) statement token := by
  unfold readShown
  refine .get (.within (offer_object_sound hc) ?_ ?_)
  · intro _ e he
    have hread : Sound g atEnd (do
        Reading.starting (Expression.feed g.env (Expression.scan g.env n))
          (Expression.scan g.env n) (first.map (·, location))
        Expression.finish) e fun found _ =>
          Carries g.toSurroundings found.2 [] [.ofType found.1] :=
      .bind (Expression.starting_sound hc hhost _ he) fun _ _ he => Expression.finish_sound he
    have hshow : ∀ found : ValueType × Code,
        Carries g.toSurroundings found.2 [] [.ofType found.1] →
        Sound g atEnd (do
          emit found.2
          emitWith (Assembly.report (if found.1.isFloat then "%f" else "%d"))
          goto .complete : Reading n Statement Verdict) statement (Orderly g token) := by
      intro found hfound
      refine .modify (.assoc (.with_literals fun pool hpool => .modify ?_))
      refine goto_sound ?_ nofun nofun nofun
      have hreport := Assembly.report_emits hc _ pool hpool
      rw [MessageFormat.mandatory_report] at hreport
      exact h.emit (hfound.append hreport) (List.append_assoc _ _ _)
    cases first with
    | none =>
        refine .of_outcome (fun _ _ => ?_) nofun
        exact .nested hread fun found _ hfound => hshow found hfound
    | some back =>
        refine .of_outcome (fun _ _ => ?_) nofun
        exact .nested (.redeliver hread) fun found _ hfound => hshow found hfound
  · intro reason e hreason
    cases first with
    | none =>
        refine .of_outcome nofun fun _ heq => ?_
        cases heq
        exact hreason
    | some back => exact .pure ⟨hfirst back rfl, hreason, h⟩

theorem feed_first_name_sound (name : String) (h : statement.Complete g.toSurroundings) :
    AnswersInOrder n g atEnd (feedFirstName g.env name location) statement token := by
  refine .look fun s hs => ?_
  dsimp only
  split
  · exact .modify (goto_sound h nofun nofun nofun)
  · refine .get ?_
    split
    · refine read_shown_sound hc hhost (fun back heq => ?_) h
      cases heq
      exact Or.inr ⟨name, rfl⟩
    · exact .refuse

theorem feed_name_sound (name : String) (h : statement.Settled g.toSurroundings) :
    AnswersInOrder n g atEnd (feedName g.env name location) statement token := by
  unfold feedName
  refine .get ?_
  split
  next hstage =>
    exact feed_target_sound name (h.complete hstage nofun nofun)
  next hstage =>
    refine .bind (feed_member?_sound token name (h.complete hstage nofun nofun))
      fun found q hq => ?_
    cases found with
    | some verdict => exact .pure hq
    | none => exact .report
  next hstage =>
    exact feed_message_sound hc hhost name (h.complete hstage nofun nofun)
  next hstage =>
    exact feed_message_sound hc hhost name (h.complete hstage nofun nofun)
  next hstage => exact feed_button_sound hc name h (Or.inl hstage)
  next hstage => exact feed_button_sound hc name h (Or.inr hstage)
  next hstage =>
    exact feed_first_name_sound hc hhost name (h.complete hstage nofun nofun)
  next => exact .refuse

/-- An argument that is a single text. -/
theorem read_text_sound :
    Sound g atEnd (readArguments g.env "c" : Reading n Statement (Nat × Code)) statement
      fun found q => q = statement ∧ Carries g.toSurroundings found.2 [] [.text] := by
  refine (read_arguments_sound hc hhost {} (Signature.ordered_of_single rfl)).imp ?_
  rintro found q ⟨rfl, -, hcode⟩
  rw [Signature.kinds_of_single rfl rfl] at hcode
  exact ⟨rfl, hcode⟩

theorem feed_instruction_sound (word : Builtin) (h : statement.Complete g.toSurroundings) :
    Sound g atEnd (feedInstruction g.env word : Reading n Statement Bool) statement
      fun taken q => if taken then q.Settled g.toSurroundings else q = statement := by
  have hgoto : ∀ r : Statement, r.Complete g.toSurroundings →
      Sound g atEnd (do
        let _ ← goto .complete
        pure true : Reading n Statement Bool) r
        fun taken q => if taken then q.Settled g.toSurroundings else q = statement :=
    fun r h => .assoc (.modify (.pure (Complete.settled h nofun nofun nofun)))
  unfold feedInstruction
  refine .get ?_
  cases word with
  | enable =>
      refine .assoc (.with_literals fun pool hpool => .modify (hgoto _ ?_))
      exact h.emit (Assembly.with_reference_emits hc _ rfl rfl rfl pool hpool) rfl
  | disable =>
      refine .assoc (.with_literals fun pool hpool => .modify (hgoto _ ?_))
      exact h.emit (Assembly.with_reference_emits hc _ rfl rfl rfl pool hpool) rfl
  | startScript =>
      refine .bind (read_text_sound hc hhost) ?_
      rintro ⟨count, code⟩ q ⟨rfl, hcode⟩
      refine .modify (.assoc (.with_literals fun pool hpool => .modify (hgoto _ ?_)))
      exact h.emit (hcode.append (Assembly.with_reference_emits hc _ rfl rfl rfl pool hpool))
        (List.append_assoc _ _ _)
  | stopScript =>
      dsimp only
      split
      · exact .pure rfl
      · refine .bind (read_text_sound hc hhost) ?_
        rintro ⟨count, code⟩ q ⟨rfl, hcode⟩
        refine .modify (.modify (hgoto _ ?_))
        exact h.emit (hcode.append (.op rfl rfl)) (List.append_assoc _ _ _)
  | _ => exact .pure rfl

omit hc hhost in
/-- An object that is ignored does not change the code. -/
theorem drop_reference_sound (extension : Extension) (h : statement.Complete g.toSurroundings) :
    Sound g atEnd (dropReference extension location : Reading n Statement Unit) statement
      fun _ q => q.Complete g.toSurroundings := by
  refine .get ?_
  split
  · exact .warn fun s hs hle _ => ⟨hs.fits, h⟩
  · exact .pure h

/-- The arguments of an instruction are as its signature describes them. -/
theorem read_call_arguments_sound {code : Int} {instruction : Extension}
    (hordered : Signature.Ordered instruction.arguments)
    (hposition : isPositionCell location = true → atEnd = true) :
    Sound g atEnd (readCallArguments g.env code instruction location :
        Reading n Statement (Option (Nat × Code))) statement fun found q =>
      q = statement ∧ ∃ count args, found = some (count, args) ∧
        count ≤ (Signature.optional instruction.arguments).length ∧
        Carries g.toSurroundings args [] (Signature.kinds instruction.arguments count) := by
  unfold readCallArguments
  dsimp only
  split
  next hspelled =>
    obtain rfl := hposition hspelled
    have hexpression : (Expression.scan g.env n).Starves := by
      rw [Expression.scan]
      exact Reading.scan_starves _ _
    -- Nothing is left to read, so that arguments are read only if the signature asks for none.
    obtain ⟨hpure, hstrokes⟩ | hstarves | ⟨defect, habort⟩ :=
      ArgumentList.read_letters_starves g.env hexpression { ignored := some (.extension code) }
        false 0 [] instruction.arguments.toList
    · have harguments : readArguments g.env instruction.arguments
          { ignored := some (.extension code) } = (pure (0, []) : Reading n Statement _) := hpure
      rw [harguments]
      refine .step (fun _ _ => rfl) (fun _ hs => hs.of_eq rfl rfl) fun _ _ => .pure ?_
      refine ⟨rfl, 0, [], rfl, Nat.zero_le _, ?_⟩
      have hnone : Signature.mandatory instruction.arguments = [] := by
        refine List.filterMap_eq_nil_iff.2 fun letter hletter => ?_
        rw [hstrokes letter ((List.takeWhile_sublist _).subset hletter)]
        rfl
      rw [Signature.kinds, hnone, List.take_zero, List.append_nil]
      exact .nil []
    · exact (hstarves.attempt_downgraded.bind _).sound
    · have harguments : readArguments g.env instruction.arguments
          { ignored := some (.extension code) } =
            (Reading.abort (.internal defect) : Reading n Statement _) := habort
      rw [harguments]
      refine .step (fun _ _ => rfl) (fun _ hs => hs.of_eq rfl rfl) fun _ _ => ?_
      show Sound g true (Reading.abort (.internal defect)) statement _
      exact .abort (by rintro ⟨⟩)
  next =>
    refine .map ((read_arguments_sound hc hhost _ hordered).imp ?_)
    rintro ⟨count, args⟩ q ⟨rfl, hle, hargs⟩
    exact ⟨rfl, count, args, rfl, hle, hargs⟩

theorem feed_call_sound {code : Int} {instruction : Extension}
    (hinstruction : g.env.extensions.instruction? code = some instruction)
    (hposition : isPositionCell location = true → atEnd = true)
    (h : statement.Complete g.toSurroundings) :
    AnswersInOrder n g atEnd (feedCall g.env code instruction location) statement token := by
  obtain ⟨hnone, keyword, hmem⟩ := hhost.instruction code instruction hinstruction
  refine .bind (drop_reference_sound instruction h) fun _ q hq => ?_
  refine .bind (read_call_arguments_sound hc hhost (hhost.ordered keyword instruction hmem)
    hposition) ?_
  rintro found q' ⟨rfl, count, args, rfl, hle, hargs⟩
  refine .modify (.get ?_)
  rw [emit_fragment_call_instruction hinstruction]
  refine emit_fragment_sound fun pool hpool hdefect => goto_sound ?_ nofun nofun nofun
  have hcall := instruction.call_emits hc hmem (hhost.admitted keyword instruction hmem) hle _ pool
    hpool hdefect
  rw [hnone] at hcall
  exact hq.emit (hargs.append hcall) (List.append_assoc _ _ _)

theorem feed_extension?_sound (word : Keyword)
    (hposition : Token.IsPosition g.env.extensions (.keyword word) location → atEnd = true)
    (h : statement.Complete g.toSurroundings) :
    Sound g atEnd (feedExtension? g.env word location : Reading n Statement (Option Verdict))
      statement (OrderlyIfAny g (.keyword word) statement) := by
  cases word with
  | builtin word => exact .pure rfl
  | extension code =>
      unfold feedExtension?
      dsimp only
      split
      next instruction hinstruction =>
        refine .map (feed_call_sound hc hhost hinstruction (fun hspelled => ?_) h)
        exact hposition ⟨code, rfl, by rw [hinstruction]; rfl, hspelled⟩
      next function _ _ =>
        refine .bind (drop_reference_sound function h) fun _ q hq => .map ?_
        refine read_shown_sound hc hhost (fun back heq => ?_) hq
        cases heq
        exact Or.inl rfl
      next => exact .pure rfl

omit hc in
theorem feed_declaration_sound (word : Keyword) (h : statement.Complete g.toSurroundings) :
    AnswersInOrder n g atEnd (feedDeclaration g.env word location) statement token := by
  unfold feedDeclaration
  dsimp only
  split
  · exact .report
  · exact .nested (Declaration.read_from_sound hhost.lacksPosition word) fun _ _ _ => .pure h

omit hc hhost in
theorem pass_stray_sound (problem : Problem) (h : statement.Complete g.toSurroundings) :
    AnswersInOrder n g atEnd (passStray problem location) statement token :=
  .warn (goto_sound h nofun nofun nofun)

omit hc in
theorem feed_first_word?_sound (token : Token) (word : Builtin)
    (h : statement.Complete g.toSurroundings) :
    Sound g atEnd (feedFirstWord? g.env word location : Reading n Statement (Option Verdict))
      statement (OrderlyIfAny g token statement) := by
  cases word with
  | short | long | float => exact .map (feed_declaration_sound hhost _ h)
  | setVariable => exact .map (goto_sound h nofun nofun nofun)
  | messageBox => exact .modify_modes (.map (goto_sound h nofun nofun nofun))
  | leave =>
      refine .modify (.map (goto_sound ?_ nofun nofun nofun))
      exact h.emit (.of_typed (.exit [] [])) rfl
  | elseBlock | endIf | beginScript => exact .map (pass_stray_sound _ h)
  | _ => exact .pure rfl

omit hc in
theorem feed_plain_keyword_sound (word : Keyword) (h : statement.Complete g.toSurroundings) :
    AnswersInOrder n g atEnd (feedPlainKeyword g.env word location) statement (.keyword word) := by
  cases word with
  | extension code => exact .refuse
  | builtin builtin =>
      refine .bind (feed_first_word?_sound hhost (.keyword (.builtin builtin)) builtin h)
        fun found q hq => ?_
      cases found with
      | some verdict => exact .pure hq
      | none => exact .refuse

theorem feed_other_keyword_sound (word : Keyword)
    (hposition : Token.IsPosition g.env.extensions (.keyword word) location → atEnd = true)
    (h : statement.Complete g.toSurroundings) :
    AnswersInOrder n g atEnd (feedOtherKeyword g.env word location) statement (.keyword word) := by
  refine .bind (feed_extension?_sound hc hhost word hposition h) fun found q hq => ?_
  cases found with
  | some verdict => exact .pure hq
  | none =>
      obtain rfl := hq
      refine .get ?_
      dsimp only
      split
      · refine read_shown_sound hc hhost (fun back heq => ?_) h
        cases heq
        exact Or.inl rfl
      · split
        · exact .warn (.set (feed_plain_keyword_sound hhost word h))
        · exact feed_plain_keyword_sound hhost word h

theorem feed_first_keyword_sound (word : Keyword)
    (hposition : Token.IsPosition g.env.extensions (.keyword word) location → atEnd = true)
    (h : statement.Complete g.toSurroundings) :
    AnswersInOrder n g atEnd (feedFirstKeyword g.env word location) statement (.keyword word) := by
  cases word with
  | extension code => exact feed_other_keyword_sound hc hhost _ hposition h
  | builtin builtin =>
      refine .bind (feed_instruction_sound hc hhost builtin h) fun taken q hq => ?_
      cases taken with
      | true => exact .pure hq
      | false =>
          obtain rfl := hq
          exact feed_other_keyword_sound hc hhost _ hposition h

theorem feed_keyword_sound (word : Keyword)
    (hposition : Token.IsPosition g.env.extensions (.keyword word) location → atEnd = true)
    (h : statement.Settled g.toSurroundings) :
    AnswersInOrder n g atEnd (feedKeyword g.env word location) statement (.keyword word) := by
  have hname : Sound g atEnd (if isInstruction g.env word then
      feedName g.env (unquote location.literal) location
      else Reading.refuse (.keyword word) location : Reading n Statement Verdict) statement
      (Orderly g (.keyword word)) := by
    split
    · exact feed_name_sound hc hhost _ h
    · exact .refuse
  unfold feedKeyword
  refine .get ?_
  split
  · exact hname
  · exact hname
  · exact hname
  · exact hname
  next hstage => exact feed_target_sound _ (h.complete hstage nofun nofun)
  next hstage =>
    refine .bind (feed_member?_sound (.keyword word) _ (h.complete hstage nofun nofun))
      fun found q hq => ?_
    cases found with
    | some verdict => exact .pure hq
    | none => exact .refuse
  next hstage =>
    exact feed_first_keyword_sound hc hhost word hposition (h.complete hstage nofun nofun)
  next hstage =>
    exact feed_first_keyword_sound hc hhost word hposition (h.complete hstage nofun nofun)
  next =>
    split
    · exact feed_assignment_sound hc hhost word h
    · exact .refuse

omit hhost in
/-- The end of the line after a button emits the message. -/
theorem emit_message_sound {statement : Statement}
    (h : Carries g.toSurroundings statement.code [] (List.replicate statement.buttons .text ++
      Signature.mandatory (MessageFormat.signature statement.name))) :
    Sound g atEnd (do
      emitFragment (Assembly.message statement.name statement.buttons)
      pure .done : Reading n Statement Verdict) statement (Orderly g token) := by
  refine emit_fragment_sound fun pool hpool hdefect => .pure ?_
  exact h.append (Assembly.message_emits hc statement.name statement.buttons pool hpool hdefect)

theorem feed_special_sound (sign : Special) (h : statement.Settled g.toSurroundings) :
    AnswersInOrder n g atEnd (feedSpecial g.env sign location) statement (.special sign) := by
  have hshown : statement.Complete g.toSurroundings →
      Sound g atEnd (if statement.allowExpression then
        readShown g.env (some (.special sign)) location
        else Reading.refuse (.special sign) location : Reading n Statement Verdict) statement
        (Orderly g (.special sign)) := by
    intro hcomplete
    split
    · refine read_shown_sound hc hhost (fun back heq => ?_) hcomplete
      cases heq
      exact Or.inl rfl
    · exact .refuse
  have hcarries := h.carries
  unfold waiting at hcarries
  unfold feedSpecial
  refine .get ?_
  split
  next hstage => exact .warn (.pure h)
  next hstage => exact .pure (h.complete hstage nofun nofun)
  next hstage => exact .pure (h.complete hstage nofun nofun)
  next hstage => exact goto_sound (h.complete hstage nofun nofun) nofun nofun nofun
  next hstage => exact .warn (goto_sound (h.complete hstage nofun nofun) nofun nofun nofun)
  next hstage => exact goto_sound (h.complete hstage nofun nofun) nofun nofun nofun
  next hstage =>
    rw [hstage] at hcarries
    exact emit_message_sound hc hcarries
  next hstage =>
    rw [hstage] at hcarries
    exact emit_message_sound hc hcarries
  next hstage =>
    rw [hstage] at hcarries
    exact .modify (.pure ⟨hcarries, nofun⟩)
  next hstage => exact goto_sound (h.complete hstage nofun nofun) nofun nofun nofun
  next hstage =>
    split
    · exact .assoc (.modify (read_shown_sound hc hhost nofun (h.complete hstage nofun nofun)))
    · exact .refuse
  next hstage => exact hshown (h.complete hstage nofun nofun)
  next hstage => exact hshown (h.complete hstage nofun nofun)
  next hstage => exact hshown (h.complete hstage nofun nofun)
  next => exact .refuse

theorem feed_number_sound (h : statement.Settled g.toSurroundings) :
    AnswersInOrder n g atEnd (feedNumber g.env token location) statement token := by
  unfold feedNumber
  refine .get ?_
  split
  next hstage =>
    split
    · refine read_shown_sound hc hhost (fun back heq => ?_) (h.complete hstage nofun nofun)
      cases heq
      exact Or.inl rfl
    · exact .refuse
  next hstage => exact feed_target_sound _ (h.complete hstage nofun nofun)
  next => exact .refuse

/-- Every token leaves the statement in order. -/
theorem feed_sound
    (hposition : token.IsPosition g.env.extensions location → atEnd = true)
    (h : statement.Settled g.toSurroundings) :
    AnswersInOrder n g atEnd (feed g.env token location) statement token := by
  cases token with
  | int value => exact feed_number_sound hc hhost h
  | float value => exact feed_number_sound hc hhost h
  | name name => exact feed_name_sound hc hhost name h
  | keyword word => exact feed_keyword_sound hc hhost word hposition h
  | special sign => exact feed_special_sound hc hhost sign h
  | comment text => exact .refuse
  | endOfText => exact .refuse

/-- The code of a line leaves the stack as it was. -/
theorem compile_sound {first : Option (Token × Location)}
    (hfirst : ∀ token location, first = some (token, location) →
      token.IsPosition g.env.extensions location → atEnd = true) :
    Sound g atEnd (compile g.env first : Reading n Statement (Bool × Code)) statement
      fun found _ => Carries g.toSurroundings found.2 [] [] := by
  have hreset : statement.reset.Settled g.toSurroundings := ⟨.nil [], nofun⟩
  have hscan : ∀ q : Statement, q.Settled g.toSurroundings →
      Sound g atEnd (scan g.env : Reading n Statement Unit) q
        fun _ q => q.Complete g.toSurroundings :=
    fun q hq => .scan (Settled g.toSurroundings) hhost.lacksPosition
      (fun _ _ _ _ _ _ hposition h => feed_sound hc hhost hposition h) nofun hq
  unfold compile
  refine .modify (.bind (.recover_line (.starting (fun token location heq => ?_) hscan hreset)) ?_)
  · exact feed_sound hc hhost (hfirst token location heq) hreset
  · rintro read q ⟨rfl, hq⟩
    exact .get (.set (.pure hq))

end Values

end Statement

end QuestScript
