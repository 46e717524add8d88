import QuestScript.Expression.Reader
import QuestScript.Proofs.Operands

/-!
# Values of expressions

How an expression keeps its types in order while it takes tokens. Functions have arguments that are
expressions themselves, so that each lemma is about readers of expressions that do the same, and
`Expression.scan_sound` ties the knot.
-/

namespace QuestScript

variable {g : Ending} {atEnd : Bool} {n : Nat}

open Reading (Sound Answers)

/-- What the host has to observe: functions and instructions stand in their own tables, their
operation numbers lie where they should, no instruction is called `PositionCell`, and in front of an
argument that has to be there no argument is dropped. -/
structure Registry.Orderly (registry : Registry) : Prop where
  function : ∀ code extension, registry.function? code = some extension →
    extension.returns.isSome = true ∧ ∃ keyword, registry.Has keyword extension
  instruction : ∀ code extension, registry.instruction? code = some extension →
    extension.returns = none ∧ ∃ keyword, registry.Has keyword extension
  admitted : ∀ keyword extension, registry.Has keyword extension → extension.Admitted
  ordered : ∀ keyword extension, registry.Has keyword extension →
    Signature.Ordered extension.arguments
  lacksPosition : registry.LacksPosition

theorem Fragment.defect_of_to_except {fragment : Fragment} {code : Code}
    (h : fragment.toExcept = .ok code) : fragment.defect = none := by
  unfold toExcept at h
  split at h
  next hdefect => exact hdefect
  next => cases h

namespace Signature

variable {signature : String} {letter : Char} {kind : Kind}

/-- A signature of a single letter asks for one argument. -/
theorem ordered_of_single (h : signature.toList = [letter]) : Ordered signature := by
  rw [Ordered, h]
  exact List.Pairwise.sublist (List.takeWhile_sublist _) (List.pairwise_singleton _ _)

theorem kinds_of_single (h : signature.toList = [letter])
    (hletter : Kind.ofLetter? letter = some kind) (count : Nat) :
    kinds signature count = [kind] := by
  have hstroke : (letter != '/') = true := by
    rw [bne_iff_ne]
    rintro rfl
    cases hletter
  simp [kinds, mandatory, optional, h, hstroke, hletter]

end Signature

/-- The number of a variable lies within the final table of its type. -/
theorem Locals.index_of?_lt {locals : Locals} {name : String} {type : ValueType}
    (hlocals : locals.Within g.locals) (h : locals.typeOf? name = some type) :
    (locals.indexOf? name).getD 0 < (g.locals.names type).length := by
  obtain ⟨index, hindex, hlt⟩ := exists_index_of?_eq h
  rw [hindex, Option.getD_some]
  exact Nat.lt_of_lt_of_le hlt (hlocals type).length_le

namespace Expression

variable {e : Expression} {token : Token} {location : Location}

/-- What an expression answers to a token: it stays in order. -/
abbrev Orderly (g : Ending) (token : Token) : Verdict → Expression → Prop :=
  Answers token (WellTyped g.toSurroundings) (WellTyped g.toSurroundings)

/-- To the token in hand the expression gives an answer that leaves it in order. -/
abbrev AnswersInOrder (n : Nat) (g : Ending) (atEnd : Bool) (x : Reading n Expression Verdict)
    (e : Expression) (token : Token) : Prop :=
  Sound g atEnd x e (Orderly g token)

theorem refuse_sound (he : e.WellTyped g.toSurroundings) :
    AnswersInOrder n g atEnd (refuse token location) e token :=
  Progress.refuse_sound fun _ _ => he

theorem feed_number_sound {type : ValueType} {push : Literals → Code × Literals}
    {within : ∀ pool : Literals, pool.Within (push pool).2}
    (hpush : Emits g.toSurroundings push [] [.ofType type]) (he : e.WellTyped g.toSurroundings) :
    AnswersInOrder n g atEnd (feedNumber token type push location within) e token := by
  refine .get ?_
  split
  · exact refuse_sound he
  next hobject =>
    replace hobject : e.object = "" := by simpa using hobject
    refine .set ?_
    split
    · exact .pure ⟨Or.inl rfl, he.of_eq rfl rfl rfl (Or.inl rfl)⟩
    next hnext =>
      refine .modify (.assoc (.with_literals fun pool hpool => .modify (.modify (.modify ?_))))
      exact .pure (he.push (by simpa using hnext) (hpush pool hpool) rfl rfl rfl hobject)

theorem feed_operand_sound (hc : g.Addressable) (name : String)
    (he : e.WellTyped g.toSurroundings) (hobject : e.object = "") :
    AnswersInOrder n g atEnd (feedOperand g.env name location) e token := by
  refine .modify (.get ?_)
  split
  · exact .pure ⟨Or.inr ⟨name, rfl⟩, he.of_eq rfl rfl rfl (Or.inl rfl)⟩
  next hnext =>
    replace hnext : e.nextOperand = true := by simpa using hnext
    refine .modify (.look fun s hs => ?_)
    dsimp only
    split
    next type htype =>
      have hindex := Locals.index_of?_lt hs.locals htype
      exact .modify (.modify (.pure
        (he.push hnext (Assembly.fetch_local_carries hc hindex) rfl rfl rfl hobject)))
    next =>
      split
      next type hglobal =>
        refine .assoc (.with_literals fun pool hpool => .modify (.modify (.pure ?_)))
        exact he.push hnext (Assembly.fetch_global_emits hc type _ pool hpool) rfl rfl rfl hobject
      next =>
        split
        · exact .modify (.pure ⟨he.leaves, he.balance, fun _ => hnext⟩)
        · refine .assoc (.with_literals fun pool hpool => .modify (.modify (.modify (.warn ?_))))
          refine .pure (he.push hnext ?_ rfl rfl rfl hobject)
          exact Assembly.push_float_emits hc _ pool hpool

theorem feed_member_sound (hc : g.Addressable) (name : String) (he : e.WellTyped g.toSurroundings)
    (hobject : e.object ≠ "") :
    AnswersInOrder n g atEnd (feedMember g.env name location) e (.name name) := by
  refine .modify (.get ?_)
  dsimp only
  split
  · exact refuse_sound (he.of_eq rfl rfl rfl (Or.inl rfl))
  next type reference hmember =>
    refine .assoc (.with_literals fun pool hpool => .modify (.modify (.pure ?_)))
    exact he.push (he.object hobject) (Assembly.fetch_member_emits hc type _ _ _ pool hpool) rfl rfl
      rfl rfl

theorem feed_name_sound (hc : g.Addressable) (name : String) (he : e.WellTyped g.toSurroundings) :
    AnswersInOrder n g atEnd (feedName g.env name location) e token := by
  refine .get ?_
  split
  next hobject => exact feed_operand_sound hc name he (by simpa using hobject)
  next hobject =>
    split
    · exact .set (.warn (feed_operand_sound hc name (he.of_eq rfl rfl rfl (Or.inr rfl)) rfl))
    · split
      · exact (feed_member_sound hc name he (by simpa using hobject)).imp fun _ _ h => h.of_name
      · exact (refuse_sound he).imp fun _ _ h => h.of_name

/-- A call where an operand has to follow: its arguments and what is done with them. -/
theorem WellTyped.call {c : Surroundings} {e' : Expression} {args code : Code} {kinds : List Kind}
    {type : ValueType} (he : e.WellTyped c) (hnext : e.nextOperand = true)
    (hargs : Carries c args [] kinds) (hcode : Carries c code kinds [.ofType type])
    (hvalues : e'.values = ⟨type.operand :: e.values.operands, e.values.code ++ args ++ code⟩)
    (hoperators : e'.operators = e.operators) (hnext' : e'.nextOperand = false)
    (hobject : e'.object = "") : e'.WellTyped c :=
  he.push hnext (hargs.append hcode) (by rw [hvalues, List.append_assoc]) hoperators hnext' hobject

section Calls

variable {nested : Reading n Expression Unit} (hc : g.Addressable)
  (hnested : ∀ e : Expression, e.WellTyped g.toSurroundings →
    Sound g atEnd nested e fun _ q => q.WellTyped g.toSurroundings)

include hc hnested

theorem read_arguments_sound (hlacks : g.env.extensions.LacksPosition) {signature : String}
    (hordered : Signature.Ordered signature) :
    Sound g atEnd (readArguments g.env nested signature) e fun count q =>
      ∃ code, q = e.emit code ∧ count ≤ (Signature.optional signature).length ∧
        Carries g.toSurroundings code [] (Signature.kinds signature count) := by
  refine .bind (ArgumentList.read_sound hnested hc hlacks {} hordered) ?_
  rintro ⟨count, code⟩ q ⟨rfl, hle, hcode⟩
  exact .modify (.pure ⟨code, rfl, hle, hcode⟩)

theorem read_single_sound (hlacks : g.env.extensions.LacksPosition) {signature : String}
    {letter : Char} {kind : Kind} (hsignature : signature.toList = [letter])
    (hletter : Kind.ofLetter? letter = some kind) :
    Sound g atEnd (readArguments g.env nested signature) e fun _ q =>
      ∃ code, q = e.emit code ∧ Carries g.toSurroundings code [] [kind] := by
  refine (read_arguments_sound hc hnested hlacks
    (Signature.ordered_of_single hsignature)).imp ?_
  rintro count q ⟨code, rfl, -, hcode⟩
  rw [Signature.kinds_of_single hsignature hletter] at hcode
  exact ⟨code, rfl, hcode⟩

theorem call_builtin_sound (hlacks : g.env.extensions.LacksPosition) (word : Builtin)
    (he : e.WellTyped g.toSurroundings) (hnext : e.nextOperand = true)
    (hobject : e.object = "" ∨ word = .getDistance ∨ word = .getDisabled) :
    Sound g atEnd (callBuiltin g.env nested word) e fun _ q =>
      q.WellTyped g.toSurroundings := by
  cases word with
  | getSquareRoot | random | scriptRunning =>
      replace hobject : e.object = "" := by simpa using hobject
      refine .bind (read_single_sound hc hnested hlacks rfl rfl) ?_
      rintro count q ⟨args, rfl, hargs⟩
      exact .modify (.modify (.pure (he.call hnext hargs (.op rfl rfl) rfl rfl rfl hobject)))
  | menuMode | getSecondsPassed =>
      replace hobject : e.object = "" := by simpa using hobject
      exact .modify (.modify (.pure (he.push hnext (.op rfl rfl) rfl rfl rfl hobject)))
  | getDistance =>
      refine .bind (read_single_sound hc hnested hlacks rfl rfl) ?_
      rintro count q ⟨args, rfl, hargs⟩
      refine .get (.assoc (.with_literals fun pool hpool => .modify (.modify (.modify (.pure ?_)))))
      exact he.call hnext hargs (Assembly.with_reference_emits hc _ rfl rfl rfl pool hpool) rfl rfl
        rfl rfl
  | getDisabled =>
      refine .get (.assoc (.with_literals fun pool hpool => .modify (.modify (.modify (.pure ?_)))))
      exact he.push hnext (Assembly.with_reference_emits hc _ rfl rfl rfl pool hpool) rfl rfl
        rfl rfl
  | _ => exact .pure he

variable (hhost : g.env.extensions.Orderly)

include hhost

theorem call_extension_sound (code : Int) (he : e.WellTyped g.toSurroundings)
    (hnext : e.nextOperand = true) :
    Sound g atEnd (callExtension g.env nested code location) e fun _ q =>
      q.WellTyped g.toSurroundings := by
  cases hfunction : g.env.extensions.function? code with
  | none =>
      rw [call_extension_of_none hfunction]
      exact .pure he
  | some function =>
      rw [call_extension_of_some hfunction]
      obtain ⟨hreturns, keyword, hmem⟩ := hhost.function code function hfunction
      obtain ⟨type, htype⟩ := Option.isSome_iff_exists.1 hreturns
      have hcall : ∀ e : Expression, e.WellTyped g.toSurroundings → e.nextOperand = true →
          Sound g atEnd (callFunction g.env nested function location) e fun _ q =>
            q.WellTyped g.toSurroundings := by
        intro e he hnext
        refine .modify (.modify (.bind (read_arguments_sound hc hnested hhost.lacksPosition
          (hhost.ordered keyword function hmem)) ?_))
        rintro count q ⟨args, rfl, hle, hargs⟩
        refine .get (.with_literals fun pool hpool =>
          .modify (.of_defect fun emitted hemitted => ?_))
        refine .modify (.modify (.pure (he.call hnext hargs ?_ rfl rfl rfl rfl)))
        have hword := function.call_emits hc hmem (hhost.admitted keyword function hmem) hle _ pool
          hpool (Fragment.defect_of_to_except hemitted)
        rw [htype] at hword ⊢
        exact hword
      refine .get ?_
      dsimp only
      split
      · exact .warn (.modify (hcall _ (he.of_eq rfl rfl rfl (Or.inr rfl)) hnext))
      · exact hcall e he hnext

theorem call_sound (word : Keyword) (he : e.WellTyped g.toSurroundings)
    (hnext : e.nextOperand = true)
    (hobject : e.object = "" ∨ word = .builtin .getDistance ∨ word = .builtin .getDisabled) :
    Sound g atEnd (call g.env nested location word) e fun _ q =>
      q.WellTyped g.toSurroundings := by
  cases word with
  | builtin word =>
      exact call_builtin_sound hc hnested hhost.lacksPosition word he hnext (by simpa using hobject)
  | extension code => exact call_extension_sound hc hnested hhost code he hnext

theorem feed_method_sound (word : Keyword) (he : e.WellTyped g.toSurroundings) :
    AnswersInOrder n g atEnd (feedMethod g.env nested word location) e (.keyword word) := by
  refine .get ?_
  split
  next h =>
    rw [Bool.and_eq_true] at h
    split
    · refine .modify (.modify (.bind (call_sound hc hnested hhost _
        (he.of_eq rfl rfl rfl (Or.inl rfl)) h.2 (Or.inr (Or.inr rfl))) fun _ q hq => .pure hq))
    · refine .modify (.modify (.bind (call_sound hc hnested hhost _
        (he.of_eq rfl rfl rfl (Or.inl rfl)) h.2 (Or.inr (Or.inl rfl))) fun _ q hq => .pure hq))
    · exact refuse_sound he
    · refine .bind (call_extension_sound hc hnested hhost _ he h.2) fun isCall q hq => ?_
      cases isCall with
      | true => exact .pure hq
      | false => exact refuse_sound hq
  next => exact refuse_sound he

theorem feed_function_sound (word : Keyword) (he : e.WellTyped g.toSurroundings) :
    AnswersInOrder n g atEnd (feedFunction g.env nested word location) e (.keyword word) := by
  replace he : ({ e with first := false } : Expression).WellTyped g.toSurroundings :=
    he.of_eq rfl rfl rfl (Or.inl rfl)
  refine .modify (.get ?_)
  split
  · exact feed_method_sound hc hnested hhost word he
  next hobject =>
    split
    · exact .pure ⟨Or.inl rfl, he⟩
    next hnext =>
      refine .modify (.modify (.bind (call_sound hc hnested hhost word
        (he.of_eq rfl rfl rfl (Or.inl rfl)) (by simpa using hnext)
        (Or.inl (by simpa using hobject))) fun isCall q hq => ?_))
      cases isCall with
      | true => exact .pure hq
      | false => exact refuse_sound hq

theorem feed_keyword_sound (word : Keyword) (he : e.WellTyped g.toSurroundings) :
    AnswersInOrder n g atEnd (feedKeyword g.env nested word location) e (.keyword word) := by
  unfold feedKeyword
  split <;> split
  · exact feed_name_sound hc _ he
  · exact feed_function_sound hc hnested hhost _ he
  · exact feed_name_sound hc _ he
  · exact feed_function_sound hc hnested hhost _ he

end Calls

theorem feed_joint_sound (sign : Special) (he : e.WellTyped g.toSurroundings) :
    AnswersInOrder n g atEnd (feedJoint sign location) e (.special sign) := by
  refine .get ?_
  split
  · exact .set (.pure ((he.push_operator rfl).of_eq rfl rfl rfl (Or.inl rfl)))
  split
  · exact .set (.pure (he.of_eq rfl rfl rfl (Or.inl rfl)))
  split
  · exact .set (.pure (he.of_eq rfl rfl rfl (Or.inl rfl)))
  · exact refuse_sound he

theorem feed_before_operand_sound (sign : Special) (he : e.WellTyped g.toSurroundings) :
    AnswersInOrder n g atEnd (feedBeforeOperand sign location) e (.special sign) := by
  refine .get ?_
  split
  · exact .set (.pure ((he.push_operator rfl).of_eq rfl rfl rfl (Or.inl rfl)))
  · exact .set (.pure (he.of_eq rfl rfl rfl (Or.inl rfl)))
  · exact .set (.pure ((he.push_operator rfl).of_eq rfl rfl rfl (Or.inl rfl)))
  · exact refuse_sound he

theorem is_binary_of_of_special? {sign : Special} {operator : Operator}
    (h : Operator.ofSpecial? sign = some operator) : operator.isBinary = true := by
  cases sign <;> cases h <;> rfl

theorem feed_behind_operand_sound (sign : Special) (he : e.WellTyped g.toSurroundings)
    (hnext : e.nextOperand = false) :
    AnswersInOrder n g atEnd (feedBehindOperand sign location) e (.special sign) := by
  have hplaced : ({ e with location } : Expression).WellTyped g.toSurroundings :=
    he.of_eq rfl rfl rfl (Or.inl rfl)
  refine .get ?_
  split
  · exact .pure ⟨Or.inl rfl, he⟩
  · split
    · exact .of_defect fun e' hclose => .set (.pure (he.close hclose))
    · exact .set (.pure ⟨Or.inl rfl, hplaced⟩)
  · refine .set ?_
    split
    · exact refuse_sound hplaced
    next operator hoperator =>
      split
      · exact .pure ⟨Or.inl rfl, hplaced⟩
      · refine .of_defect fun e' hpush => .set (.pure ?_)
        exact hplaced.push_binary hnext (is_binary_of_of_special? hoperator) hpush

theorem feed_special_sound (sign : Special) (he : e.WellTyped g.toSurroundings) :
    AnswersInOrder n g atEnd (feedSpecial sign location) e (.special sign) := by
  refine .get ?_
  split
  · exact feed_joint_sound sign he
  split
  · refine .set ?_
    split
    · exact .pure (he.of_eq rfl rfl rfl (Or.inl rfl))
    · exact .pure ⟨Or.inl rfl, he.of_eq rfl rfl rfl (Or.inl rfl)⟩
  · refine .set ?_
    split
    · exact .modify (.pure ⟨Or.inl rfl, he.of_eq rfl rfl rfl (Or.inl rfl)⟩)
    split
    · exact feed_before_operand_sound sign (he.of_eq rfl rfl rfl (Or.inl rfl))
    next hnext =>
      exact feed_behind_operand_sound sign (he.of_eq rfl rfl rfl (Or.inl rfl))
        (by simpa using hnext)

/-- Every token leaves the expression in order, if the expressions among the arguments of functions
are left so. -/
theorem feed_sound (hc : g.Addressable) (hhost : g.env.extensions.Orderly)
    {nested : Reading n Expression Unit}
    (hnested : ∀ e : Expression, e.WellTyped g.toSurroundings →
      Sound g atEnd nested e fun _ q => q.WellTyped g.toSurroundings)
    (he : e.WellTyped g.toSurroundings) :
    AnswersInOrder n g atEnd (feed g.env nested token location) e token := by
  cases token with
  | int value => exact feed_number_sound (Assembly.push_int_emits hc value) he
  | float value => exact feed_number_sound (Assembly.push_float_emits hc value) he
  | name name => exact feed_name_sound hc name he
  | keyword word => exact feed_keyword_sound hc hnested hhost word he
  | special sign => exact feed_special_sound sign he
  | comment text => exact refuse_sound he
  | endOfText => exact refuse_sound he

/-- Reading an expression leaves it in order. -/
theorem scan_sound (hc : g.Addressable) (hhost : g.env.extensions.Orderly)
    (he : e.WellTyped g.toSurroundings) :
    Sound g atEnd (scan g.env n) e fun _ q => q.WellTyped g.toSurroundings := by
  induction n using Nat.strongRecOn generalizing e atEnd with
  | ind n ih =>
      rw [scan]
      exact .scan (WellTyped g.toSurroundings) hhost.lacksPosition
        (fun m hm _ _ _ _ _ he => feed_sound hc hhost (fun _ he => ih m hm he) he) nofun he

/-- The same with a token that has been delivered already. -/
theorem starting_sound (hc : g.Addressable) (hhost : g.env.extensions.Orderly)
    (first : Option (Token × Location)) (he : e.WellTyped g.toSurroundings) :
    Sound g atEnd (Reading.starting (feed g.env (scan g.env n)) (scan g.env n) first) e
      fun _ q => q.WellTyped g.toSurroundings :=
  .starting (fun _ _ _ => feed_sound hc hhost (fun _ he => scan_sound hc hhost he) he)
    (fun _ he => scan_sound hc hhost he) he

end Expression

end QuestScript
