import QuestScript.Argument.List
import QuestScript.Proofs.Sound

/-!
# Operands and arguments

While an expression is read, the types that it keeps are those of the values that its code leaves,
and the operators that wait will bring them down to one (`Expression.WellTyped`). So the code of a
finished expression leaves one value of its type (`Expression.finish_sound`).

The main statement is `ArgumentList.read_sound`. If expressions are read in this way, the code of
the arguments of a call leaves what their signature describes, the first argument on top.
-/

namespace QuestScript

variable {c : Surroundings} {g : Ending} {atEnd : Bool} {n : Nat}

open Reading (Sound Answers)

/-! ### Operators -/

/-- The code leaves values of the types that are kept. -/
def Emitted.Leaves (c : Surroundings) (values : Emitted) : Prop :=
  Carries c values.code [] (values.operands.map Kind.ofType)

theorem Emitted.Leaves.binary {values : Emitted} {left right type : ValueType}
    {rest : List ValueType} {code : Code} (h : values.Leaves c)
    (hoperands : values.operands = right :: left :: rest)
    (hcode : Carries c code [.ofType right, .ofType left] [.ofType type]) :
    Emitted.Leaves c ⟨type :: rest, values.code ++ code⟩ := by
  unfold Leaves at h ⊢
  rw [hoperands] at h
  exact h.append (hcode.frame (rest.map Kind.ofType))

namespace Operator

/-- The operator takes two operands. -/
def isBinary : Operator → Bool
  | .opening | .negate => false
  | _ => true

/-- The number of operators that take two operands. -/
def binaries (operators : List Operator) : Nat :=
  operators.countP isBinary

theorem compare_carries (kind : Comparison) (left right : ValueType) :
    Carries c (Assembly.compare kind left right) [.ofType right, .ofType left]
      [.ofType .long] := by
  have h : ∀ {intOp floatOp : Opcode}, intOp.effect? = some ([.long, .long], [.long]) →
      floatOp.effect? = some ([.float, .float], [.long]) →
      Carries c (Assembly.binary left right intOp floatOp) [.ofType right, .ofType left]
        [.ofType .long] := by
    intro intOp floatOp hint hfloat
    have hbinary : Carries c (Assembly.binary left right intOp floatOp) _ _ :=
      Assembly.binary_carries hint hfloat
    rwa [ite_self] at hbinary
  cases kind <;> exact h rfl rfl

/-- An operator brings the values down as it should. -/
theorem apply_leaves {operator : Operator} {values values' : Emitted}
    (happly : operator.apply values = .ok values') (hvalues : values.Leaves c) :
    values'.Leaves c ∧
      values'.operands.length + binaries [operator] = values.operands.length := by
  cases operator with
  | opening => cases happly
  | negate =>
      unfold apply at happly
      dsimp only at happly
      split at happly
      next type rest hoperands =>
        cases happly
        unfold Emitted.Leaves at hvalues ⊢
        rw [hoperands] at hvalues ⊢
        exact ⟨hvalues.append ((Assembly.negate_carries type).frame _), rfl⟩
      next => cases happly
  | compare kind =>
      unfold apply at happly
      dsimp only at happly
      split at happly
      next right left rest hoperands =>
        cases happly
        exact ⟨hvalues.binary hoperands (compare_carries kind left right), by rw [hoperands]; rfl⟩
      next => cases happly
  | add | sub | mul | div =>
      unfold apply at happly
      dsimp only at happly
      split at happly
      next right left rest hoperands =>
        cases happly
        refine ⟨hvalues.binary hoperands ?_, by rw [hoperands]; rfl⟩
        exact Assembly.binary_carries rfl rfl
      next => cases happly

/-- Operators that come out bring the values down by as many as take two operands, and the top of
those that stay fails the test. -/
theorem emit_while_leaves {test : Option Operator → Bool} {operators operators' : List Operator}
    {values values' : Emitted}
    (hemit : emitWhile test operators values = .ok (operators', values'))
    (hvalues : values.Leaves c) :
    values'.Leaves c ∧
      values'.operands.length + binaries operators =
        values.operands.length + binaries operators' ∧
      test operators'.head? = false := by
  induction operators generalizing values with
  | nil =>
      unfold emitWhile at hemit
      split at hemit
      · cases hemit
      next htest =>
        cases hemit
        exact ⟨hvalues, rfl, by simpa using htest⟩
  | cons operator rest ih =>
      unfold emitWhile at hemit
      split at hemit
      next htest =>
        cases happly : operator.apply values with
        | error defect =>
            rw [happly] at hemit
            cases hemit
        | ok between =>
            rw [happly] at hemit
            obtain ⟨hbetween, hlength⟩ := apply_leaves happly hvalues
            obtain ⟨hleaves, hcount, hstop⟩ := ih hemit hbetween
            refine ⟨hleaves, ?_, hstop⟩
            have hcons : binaries (operator :: rest) = binaries rest + binaries [operator] := by
              simp only [binaries, List.countP_cons, List.countP_nil]
              omega
            omega
      next htest =>
        cases hemit
        exact ⟨hvalues, rfl, by simpa using htest⟩

end Operator

/-! ### Expressions -/

namespace Expression

/-- The types that the expression keeps are those of the values that its code leaves. There is one
more, counting the operand that may have to follow, than operators for two operands wait. Behind an
object an operand has to follow. -/
structure WellTyped (c : Surroundings) (e : Expression) : Prop where
  leaves : e.values.Leaves c
  balance : e.values.operands.length + (if e.nextOperand then 1 else 0) =
    Operator.binaries e.operators + 1
  object : e.object ≠ "" → e.nextOperand = true

variable {e e' : Expression}

/-- An expression of which nothing has been read. -/
theorem well_typed_of_fresh (hvalues : e.values = {}) (hoperators : e.operators = [])
    (hnext : e.nextOperand = true) : e.WellTyped c where
  leaves := by
    rw [hvalues]
    exact .nil []
  balance := by
    rw [hvalues, hoperators, hnext]
    rfl
  object _ := hnext

namespace WellTyped

/-- What is not about values, operators and objects does not matter. -/
theorem of_eq (he : e.WellTyped c) (hvalues : e'.values = e.values)
    (hoperators : e'.operators = e.operators) (hnext : e'.nextOperand = e.nextOperand)
    (hobject : e'.object = e.object ∨ e'.object = "") : e'.WellTyped c where
  leaves := hvalues ▸ he.leaves
  balance := by
    rw [hvalues, hoperators, hnext]
    exact he.balance
  object h := by
    obtain hobject | hobject := hobject
    · rw [hnext]
      exact he.object (hobject ▸ h)
    · exact absurd hobject h

/-- Code that leaves a value where an operand has to follow. -/
theorem push {code : Code} {type : ValueType} (he : e.WellTyped c) (hnext : e.nextOperand = true)
    (hcode : Carries c code [] [.ofType type])
    (hvalues : e'.values = ⟨type.operand :: e.values.operands, e.values.code ++ code⟩)
    (hoperators : e'.operators = e.operators) (hnext' : e'.nextOperand = false)
    (hobject : e'.object = "") : e'.WellTyped c where
  leaves := by
    have hkind : Kind.ofType type.operand = Kind.ofType type := by cases type <;> rfl
    rw [hvalues, Emitted.Leaves, List.map_cons, hkind]
    exact he.leaves.add hcode
  balance := by
    have hbalance := he.balance
    rw [hnext, if_pos rfl] at hbalance
    rw [hvalues, hoperators, hnext', List.length_cons, if_neg Bool.false_ne_true]
    exact hbalance
  object h := absurd hobject h

/-- An operator that takes one operand, or a parenthesis, in front of an operand. -/
theorem push_operator {operator : Operator} (he : e.WellTyped c)
    (hoperator : operator.isBinary = false) : (e.pushOperator operator).WellTyped c where
  leaves := he.leaves
  balance := by
    rw [Expression.pushOperator, Operator.binaries, List.countP_cons_of_neg (by simp [hoperator])]
    exact he.balance
  object := he.object

/-- Operators that come out. -/
theorem emit_operators {test : Option Operator → Bool} (he : e.WellTyped c)
    (hemit : e.emitOperators test = .ok e') :
    e'.WellTyped c ∧ e'.nextOperand = e.nextOperand ∧ test e'.operators.head? = false := by
  unfold Expression.emitOperators at hemit
  cases hwhile : Operator.emitWhile test e.operators e.values with
  | error defect =>
      rw [hwhile] at hemit
      cases hemit
  | ok emitted =>
      obtain ⟨operators, values⟩ := emitted
      rw [hwhile] at hemit
      cases hemit
      obtain ⟨hleaves, hcount, hstop⟩ := Operator.emit_while_leaves hwhile he.leaves
      refine ⟨⟨hleaves, ?_, he.object⟩, rfl, hstop⟩
      have hbalance := he.balance
      dsimp only
      omega

/-- An operator between two operands. -/
theorem push_binary {operator : Operator} (he : e.WellTyped c) (hnext : e.nextOperand = false)
    (hoperator : operator.isBinary = true) (hpush : e.pushBinary operator = .ok e') :
    e'.WellTyped c := by
  unfold Expression.pushBinary at hpush
  cases hemit : e.emitOperators (·.any fun top => decide (operator.priority ≤ top.priority)) with
  | error defect =>
      rw [hemit] at hpush
      cases hpush
  | ok between =>
      rw [hemit] at hpush
      cases hpush
      obtain ⟨hbetween, hnext', -⟩ := he.emit_operators hemit
      have hbalance := hbetween.balance
      rw [hnext', hnext, if_neg Bool.false_ne_true] at hbalance
      refine ⟨hbetween.leaves, ?_, fun _ => rfl⟩
      show between.values.operands.length + 1 =
        Operator.binaries (operator :: between.operators) + 1
      rw [Operator.binaries, List.countP_cons_of_pos hoperator]
      exact congrArg (· + 1) hbalance

/-- A closing parenthesis takes its opening one away. -/
theorem close (he : e.WellTyped c) (hclose : e.close = .ok e') : e'.WellTyped c := by
  unfold Expression.close at hclose
  cases hemit : e.emitOperators fun top => top != some .opening with
  | error defect =>
      rw [hemit] at hclose
      cases hclose
  | ok between =>
      rw [hemit] at hclose
      cases hclose
      obtain ⟨hbetween, -, hstop⟩ := he.emit_operators hemit
      refine ⟨hbetween.leaves, ?_, hbetween.object⟩
      have hbalance := hbetween.balance
      obtain ⟨rest, hoperators⟩ := List.head?_eq_some_iff.1 (bne_eq_false_iff_eq.1 hstop)
      rw [hoperators] at hbalance
      dsimp only
      rw [hoperators]
      exact hbalance

end WellTyped

/-- The code of a finished expression leaves one value of its type. -/
theorem finish_sound (he : e.WellTyped c) :
    Sound g atEnd (finish : Reading n Expression (ValueType × Code)) e fun found _ =>
      Carries c found.2 [] [.ofType found.1] := by
  unfold finish
  refine .get ?_
  split
  · exact .report
  split
  · exact .report
  split
  · exact .report
  next _ hnext _ =>
    refine .of_defect fun e' hemit => .set ?_
    obtain ⟨he', hnext', hstop⟩ := he.emit_operators hemit
    have hoperators : e'.operators = [] := by simpa using hstop
    have hlength : e'.values.operands.length = 1 := by
      have hbalance := he'.balance
      rw [hnext', hoperators] at hbalance
      simp only [Bool.or_eq_true, not_or, Bool.not_eq_true] at hnext
      rwa [hnext.1, if_neg Bool.false_ne_true] at hbalance
    obtain ⟨type, htype⟩ := List.length_eq_one_iff.1 hlength
    have hleaves : Carries c e'.code [] (e'.values.operands.map Kind.ofType) := he'.leaves
    rw [htype] at hleaves ⊢
    exact .pure hleaves

end Expression

/-! ### Arguments -/

theorem Progress.refuse_sound {σ : Type} {p : σ} {progress : Progress} {token : Token}
    {location : Location} {inv done : σ → Prop}
    (hp : progress.optional = true → progress.empty = true → done p) :
    Sound g atEnd (progress.refuse token location : Reading n σ Verdict) p
      (Answers token inv done) := by
  unfold refuse
  split
  next h =>
    rw [Bool.and_eq_true] at h
    exact .pure ⟨Or.inl rfl, hp h.1 h.2⟩
  next => exact .refuse

namespace TextArgument

/-- Nothing but a comma has been read of the text. -/
structure Fresh (optional dropped : Bool) (argument : TextArgument) : Prop where
  progress : argument.progress = { optional }
  dropped : argument.dropped = dropped
  code : argument.code = []

/-- The text is missing only if it is optional. If it is there and not dropped, it is pushed. -/
structure Complete (c : Surroundings) (optional dropped : Bool) (argument : TextArgument) :
    Prop where
  optional : argument.progress.empty = true → optional = true
  carries : argument.progress.empty = false → dropped = false →
    Carries c argument.code [] [.text]

variable {optional dropped : Bool} {argument : TextArgument} {token : Token} {location : Location}

theorem accept_sound (hc : g.Addressable) (text : String) (ha : argument.Fresh optional dropped) :
    Sound g atEnd (accept text location : Reading n TextArgument Verdict) argument
      (Answers token (Fresh optional dropped) (Complete g.toSurroundings optional dropped)) := by
  unfold accept
  refine .modify (.get ?_)
  dsimp only
  rw [ha.dropped]
  cases dropped with
  | true => exact .pure ⟨nofun, nofun⟩
  | false =>
      rw [if_neg Bool.false_ne_true]
      refine .with_literals fun pool hpool => .set (.pure ⟨nofun, fun _ _ => ?_⟩)
      rw [ha.code]
      exact Assembly.push_string_emits hc _ pool hpool

theorem feed_sound (hc : g.Addressable) (ha : argument.Fresh optional dropped) :
    Sound g atEnd (feed g.env token location : Reading n TextArgument Verdict) argument
      (Answers token (Fresh optional dropped) (Complete g.toSurroundings optional dropped)) := by
  have hrefuse : ∀ token, Sound g atEnd
      (argument.progress.refuse token location : Reading n TextArgument Verdict) argument
      (Answers token (Fresh optional dropped) (Complete g.toSurroundings optional dropped)) := by
    intro token
    refine Progress.refuse_sound fun hoptional _ => ⟨fun _ => ?_, fun hempty => ?_⟩
    · rwa [ha.progress] at hoptional
    · rw [ha.progress] at hempty
      cases hempty
  unfold feed
  refine .get ?_
  cases token with
  | name text => exact accept_sound hc _ ha
  | keyword word =>
      dsimp only
      split
      · exact accept_sound hc _ ha
      · exact hrefuse _
  | int digits => exact .warn (accept_sound hc _ ha)
  | special special =>
      cases special with
      | comma =>
          dsimp only
          split
          · exact .set (.pure ⟨ha.progress, ha.dropped, ha.code⟩)
          · exact hrefuse _
      | _ => exact hrefuse _
  | _ => exact hrefuse _

theorem scan_sound (hc : g.Addressable) (hlacks : g.env.extensions.LacksPosition)
    (ha : argument.Fresh optional dropped) :
    Sound g atEnd (scan g.env : Reading n TextArgument Unit) argument
      fun _ q => q.Complete g.toSurroundings optional dropped :=
  .scan (Fresh optional dropped) hlacks (fun _ _ _ _ _ _ _ ha => feed_sound hc ha) nofun ha

end TextArgument

theorem DroppedArgument.scan_sound (hlacks : g.env.extensions.LacksPosition)
    (argument : DroppedArgument) :
    Sound g atEnd (scan g.env : Reading n DroppedArgument Unit) argument fun _ _ => True := by
  refine .scan (fun _ => True) hlacks (fun _ _ token location p _ _ _ => ?_) nofun trivial
  unfold feed
  refine .get ?_
  cases token with
  | int | float => exact .set (.pure trivial)
  | name text =>
      dsimp only
      split
      · exact Progress.refuse_sound fun _ _ => trivial
      · exact .set (.pure trivial)
  | special special =>
      cases special with
      | minus =>
          dsimp only
          split
          · exact Progress.refuse_sound fun _ _ => trivial
          · exact .set (.pure trivial)
      | _ => exact Progress.refuse_sound fun _ _ => trivial
  | _ => exact Progress.refuse_sound fun _ _ => trivial

theorem Junk.scan_sound (hlacks : g.env.extensions.LacksPosition) (ignored : Option Keyword) :
    Sound g atEnd (scan g.env ignored : Reading n Unit Unit) () fun _ _ => True := by
  refine .scan (fun _ => True) hlacks (fun _ _ token location p _ _ _ => ?_) nofun trivial
  unfold feed
  split
  · exact .warn (.pure trivial)
  · exact .pure ⟨Or.inl rfl, trivial⟩

/-- In front of an argument that has to be there no argument is dropped. -/
def Signature.Ordered (signature : String) : Prop :=
  (signature.toList.takeWhile (· != '/')).Pairwise fun letter later =>
    letter ∈ ['x', 'X', 'z'] → Kind.ofLetter? later = none

instance (signature : String) : Decidable (Signature.Ordered signature) :=
  inferInstanceAs (Decidable (List.Pairwise _ _))

theorem Kind.of_letter?_of_type {letter : Char} {type : ValueType}
    (h : ValueType.ofLetter? letter = some type) :
    Kind.ofLetter? letter = some (.ofType type) := by
  unfold ValueType.ofLetter? at h
  split at h
  next hletter =>
    cases h
    rw [hletter]
    rfl
  split at h
  next hletter =>
    cases h
    rw [hletter]
    rfl
  split at h
  next hletter =>
    cases h
    rw [hletter]
    rfl
  next => cases h

namespace ArgumentList

/-- What was found is what the letter asks for: its value, or nothing. -/
def Found.Answers (c : Surroundings) (optional : Bool) (letter : Char) : Found → Prop
  | .absent => optional = true ∨ letter ∈ ['x', 'X', 'z']
  | .dropped => Kind.ofLetter? letter = none
  | .value code => ∃ kind, Kind.ofLetter? letter = some kind ∧ Carries c code [] [kind]

/-- The code leaves values of the kinds and of as many of the others as have been counted on top of
`count`. -/
def Leaves (c : Surroundings) (kinds others : List Kind) (count : Nat) (found : Nat × Code) :
    Prop :=
  ∃ more, found.1 = count + more ∧ more ≤ others.length ∧
    Carries c found.2 [] (kinds ++ others.take more)

theorem leaves_of_carries {code : Code} {kinds : List Kind} (h : Carries c code [] kinds)
    (others : List Kind) (count : Nat) : Leaves c kinds others count (count, code) :=
  ⟨0, rfl, Nat.zero_le _, by rwa [List.take_zero, List.append_nil]⟩

theorem Leaves.cons {kinds others : List Kind} {kind : Kind} {count : Nat} {found : Nat × Code}
    (h : Leaves c (kinds ++ [kind]) others (count + 1) found) :
    Leaves c kinds (kind :: others) count found := by
  obtain ⟨more, hcount, hle, hcarries⟩ := h
  refine ⟨more + 1, by omega, by simpa using hle, ?_⟩
  rwa [List.append_assoc, List.singleton_append] at hcarries

/-- The code of a further argument goes in front of that of the others. -/
theorem carries_cons {code : Code} {parts : List Code} {kinds : List Kind} {kind : Kind}
    (hcode : Carries c code [] [kind]) (hparts : Carries c parts.flatten [] kinds) :
    Carries c (code :: parts).flatten [] (kinds ++ [kind]) := by
  rw [List.flatten_cons]
  exact hcode.append (hparts.frame [kind])

variable {σ : Type} {p : σ} {expression : Reading n Expression Unit} {optional : Bool}

theorem read_text_sound (hc : g.Addressable) (hlacks : g.env.extensions.LacksPosition)
    {letter : Char} (hletter : Kind.ofLetter? letter = some .text) (lowerCase : Bool) :
    Sound g atEnd (readText g.env optional lowerCase : Reading n σ Found) p fun found q =>
      q = p ∧ found.Answers g.toSurroundings optional letter := by
  refine .modify_modes (.nested (TextArgument.scan_sound hc hlacks ⟨rfl, rfl, rfl⟩) ?_)
  intro _ argument ha
  refine .pure ⟨rfl, ?_⟩
  split
  next h =>
    rw [Bool.and_eq_true] at h
    exact Or.inl h.1
  next h =>
    refine ⟨.text, hletter, ha.carries ?_ rfl⟩
    cases hempty : argument.progress.empty with
    | false => rfl
    | true =>
        rw [ha.optional hempty, hempty] at h
        exact absurd rfl h

theorem drop_text_sound (hc : g.Addressable) (hlacks : g.env.extensions.LacksPosition) :
    Sound g atEnd (dropText g.env : Reading n σ Found) p fun found q =>
      q = p ∧ found.Answers g.toSurroundings optional 'x' := by
  refine .modify_modes (.nested (TextArgument.scan_sound hc hlacks ⟨rfl, rfl, rfl⟩) ?_)
  intro _ argument _
  dsimp only
  split
  · exact .pure ⟨rfl, Or.inr (by decide)⟩
  · exact .warn (.pure ⟨rfl, rfl⟩)

theorem drop_value_sound (hlacks : g.env.extensions.LacksPosition) :
    Sound g atEnd (dropValue g.env : Reading n σ Found) p fun found q =>
      q = p ∧ found.Answers g.toSurroundings optional 'z' := by
  refine .nested (DroppedArgument.scan_sound hlacks _) fun _ argument _ => ?_
  dsimp only
  split
  · exact .pure ⟨rfl, Or.inr (by decide)⟩
  · exact .warn (.pure ⟨rfl, rfl⟩)

section

variable (hexpression : ∀ e : Expression, e.WellTyped g.toSurroundings →
  Sound g atEnd expression e fun _ q => q.WellTyped g.toSurroundings)

include hexpression

theorem drop_expression_sound :
    Sound g atEnd (dropExpression expression : Reading n σ Found) p fun found q =>
      q = p ∧ found.Answers g.toSurroundings optional 'X' := by
  refine .nested (hexpression _ (Expression.well_typed_of_fresh rfl rfl rfl)) fun _ e _ => ?_
  dsimp only
  split
  · exact .pure ⟨rfl, Or.inr (by decide)⟩
  · exact .warn (.pure ⟨rfl, rfl⟩)

theorem read_value_sound {letter : Char} {type : ValueType}
    (hletter : Kind.ofLetter? letter = some (.ofType type)) :
    Sound g atEnd (readValue expression optional type : Reading n σ Found) p
      fun found q => q = p ∧ found.Answers g.toSurroundings optional letter := by
  refine .nested (hexpression _ (Expression.well_typed_of_fresh rfl rfl rfl)) fun _ e he => ?_
  dsimp only
  split
  next h =>
    rw [Bool.and_eq_true] at h
    exact .pure ⟨rfl, Or.inl h.1⟩
  next =>
    refine .nested (Expression.finish_sound he) fun found _ hfound => .pure ⟨rfl, ?_⟩
    exact ⟨_, hletter, hfound.append (Assembly.convert_carries found.1 type)⟩

theorem read_expression_sound {letter : Char} {type : ValueType} (manner : Manner)
    (hletter : Kind.ofLetter? letter = some (.ofType type)) :
    Sound g atEnd (readExpression expression manner optional type : Reading n σ Found) p
      fun found q => q = p ∧ found.Answers g.toSurroundings optional letter := by
  unfold readExpression
  split
  · exact .modify_modes (read_value_sound hexpression hletter)
  · exact read_value_sound hexpression hletter

variable (hc : g.Addressable) (hlacks : g.env.extensions.LacksPosition)

include hc hlacks

theorem read_letter_sound (manner : Manner) (letter : Char) :
    Sound g atEnd (readLetter g.env expression manner optional letter : Reading n σ Found) p
      fun found q => q = p ∧ found.Answers g.toSurroundings optional letter := by
  unfold readLetter
  split
  · exact read_text_sound hc hlacks rfl false
  · exact read_text_sound hc hlacks rfl true
  · exact drop_text_sound hc hlacks
  · exact drop_expression_sound hexpression
  · exact drop_value_sound hlacks
  · exact .nested (Junk.scan_sound hlacks manner.ignored) fun _ _ _ => .pure ⟨rfl, rfl⟩
  · split
    next type htype =>
      exact read_expression_sound hexpression manner (Kind.of_letter?_of_type htype)
    next => exact .abort nofun

/-- Behind the stroke any number of arguments may be missing. -/
theorem read_letters_optional_sound (manner : Manner) (letters : List Char) {count : Nat}
    {parts : List Code} {kinds : List Kind}
    (hparts : Carries g.toSurroundings parts.flatten [] kinds) :
    Sound g atEnd (readLetters g.env expression manner true count parts letters) p fun found q =>
      q = p ∧ Leaves g.toSurroundings kinds (letters.filterMap Kind.ofLetter?) count found := by
  induction letters generalizing count parts kinds with
  | nil => exact .pure ⟨rfl, leaves_of_carries hparts _ count⟩
  | cons letter rest ih =>
      unfold readLetters
      split
      next hstroke =>
        have hnone : Kind.ofLetter? letter = none := by
          rw [hstroke]
          rfl
        rw [List.filterMap_cons_none hnone]
        exact ih hparts
      next =>
        refine .bind (read_letter_sound hexpression hc hlacks manner letter) ?_
        rintro found q ⟨rfl, hfound⟩
        cases found with
        | absent => exact .pure ⟨rfl, leaves_of_carries hparts _ count⟩
        | dropped =>
            rw [List.filterMap_cons_none hfound]
            exact ih hparts
        | value code =>
            obtain ⟨kind, hkind, hcode⟩ := hfound
            rw [List.filterMap_cons_some hkind]
            exact (ih (carries_cons hcode hparts)).imp fun _ _ h => ⟨h.1, h.2.cons⟩

/-- In front of the stroke an argument can only be missing behind one that is dropped. -/
theorem read_letters_sound (manner : Manner) {letters : List Char} {parts : List Code}
    {kinds : List Kind} (hparts : Carries g.toSurroundings parts.flatten [] kinds)
    (hordered : (letters.takeWhile (· != '/')).Pairwise fun letter later =>
      letter ∈ ['x', 'X', 'z'] → Kind.ofLetter? later = none) :
    Sound g atEnd (readLetters g.env expression manner false 0 parts letters) p fun found q =>
      q = p ∧ Leaves g.toSurroundings
        (kinds ++ (letters.takeWhile (· != '/')).filterMap Kind.ofLetter?)
        ((letters.dropWhile (· != '/')).filterMap Kind.ofLetter?) 0 found := by
  induction letters generalizing parts kinds with
  | nil =>
      refine .pure ⟨rfl, leaves_of_carries ?_ _ 0⟩
      simpa using hparts
  | cons letter rest ih =>
      unfold readLetters
      split
      next hstroke =>
        subst hstroke
        rw [List.takeWhile_cons_of_neg (by decide), List.dropWhile_cons_of_neg (by decide),
          List.filterMap_nil, List.append_nil, List.filterMap_cons_none rfl]
        exact read_letters_optional_sound hexpression hc hlacks manner rest hparts
      next hstroke =>
        have hpos : (letter != '/') = true := by simpa using hstroke
        have htake : (letter :: rest).takeWhile (· != '/') = letter :: rest.takeWhile (· != '/') :=
          List.takeWhile_cons_of_pos hpos
        have hdrop : (letter :: rest).dropWhile (· != '/') = rest.dropWhile (· != '/') :=
          List.dropWhile_cons_of_pos hpos
        rw [htake, List.pairwise_cons] at hordered
        rw [htake, hdrop]
        refine .bind (read_letter_sound hexpression hc hlacks manner letter) ?_
        rintro found q ⟨rfl, hfound⟩
        cases found with
        | absent =>
            -- What is missing has no kind, since it stands behind a letter that is dropped.
            refine .pure ⟨rfl, leaves_of_carries ?_ _ 0⟩
            have hdropped : letter ∈ ['x', 'X', 'z'] := hfound.resolve_left nofun
            have hletter : Kind.ofLetter? letter = none := by
              simp only [List.mem_cons, List.not_mem_nil, or_false] at hdropped
              obtain rfl | rfl | rfl := hdropped <;> rfl
            rw [List.filterMap_cons_none hletter,
              List.filterMap_eq_nil_iff.2 fun later h => hordered.1 later h hdropped,
              List.append_nil]
            exact hparts
        | dropped =>
            rw [List.filterMap_cons_none hfound]
            exact ih hparts hordered.2
        | value code =>
            obtain ⟨kind, hkind, hcode⟩ := hfound
            rw [List.filterMap_cons_some hkind]
            have hrest := ih (carries_cons hcode hparts) hordered.2
            rwa [List.append_assoc, List.singleton_append] at hrest

/-- The code of the arguments leaves what the signature describes. -/
theorem read_sound (manner : Manner) {signature : String} (hordered : Signature.Ordered signature) :
    Sound g atEnd (read g.env expression signature manner : Reading n σ (Nat × Code)) p
      fun found q => q = p ∧ found.1 ≤ (Signature.optional signature).length ∧
        Carries g.toSurroundings found.2 [] (Signature.kinds signature found.1) := by
  refine (read_letters_sound hexpression hc hlacks manner (.nil []) hordered).imp ?_
  rintro found q ⟨rfl, more, hcount, hle, hcarries⟩
  rw [Nat.zero_add] at hcount
  subst hcount
  exact ⟨rfl, hle, hcarries⟩

end

end ArgumentList

end QuestScript
