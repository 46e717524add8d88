import QuestScript.Proofs.Formula
import QuestScript.Proofs.Reading

/-!
# Expressions are read by their grammar

The main statement is `Expression.scan_accepts_iff`: of the tokens that may stand in a formula, the
reader accepts exactly those sequences that the grammar derives, and it leaves the code, the type
and the literals of the formula.

A sequence that the grammar derives is read by induction on the derivation. The invariant is about
the two stacks: what a level adds to the waiting operators binds at least as tightly as the level,
and emitting it completes the code of the formula. For the other direction, every state of the
reader is a row of unfinished expressions, one for each open parenthesis (`Formula.Awaits`).
-/

namespace QuestScript

open Formula

/-! ### Operators and levels -/

/-- What waits on the operator stack for an operation. -/
def Operation.operator : Operation → Operator
  | .compare kind => .compare kind
  | .add => .add
  | .sub => .sub
  | .mul => .mul
  | .div => .div

namespace Formula.Level

/-- How tightly the signs between the parts of a level bind. -/
def rank : Level → Nat
  | .expression => 1
  | .sum => 2
  | .product => 3
  | .unit => 4

variable {level part : Level} {sign : Special} {operation : Operation}

theorem rank_of_parts? (h : level.parts? = some part) : part.rank = level.rank + 1 := by
  cases level <;> cases h <;> rfl

theorem one_le_rank (level : Level) : 1 ≤ level.rank := by
  cases level <;> decide

theorem rank_injective : Function.Injective rank := by
  intro level level' h
  cases level <;> cases level' <;> simp [rank] at h ⊢

theorem of_special?_of_operation? (h : level.operation? sign = some operation) :
    Operator.ofSpecial? sign = some operation.operator := by
  unfold operation? at h
  split at h <;> cases h <;> rfl

theorem priority_of_operation? (h : level.operation? sign = some operation) :
    operation.operator.priority = level.rank := by
  unfold operation? at h
  split at h <;> cases h <;> rfl

/-- The signs that bind tightest are those of a product. -/
theorem mul_or_div_of_operation? (h : level.operation? sign = some operation)
    (hrank : Level.product.rank ≤ level.rank) :
    operation.operator = .mul ∨ operation.operator = .div := by
  unfold operation? at h
  split at h <;> cases h
  · exact absurd hrank (by decide)
  · exact absurd hrank (by decide)
  · exact absurd hrank (by decide)
  · exact Or.inl rfl
  · exact Or.inr rfl

/-- Every operator between two operands belongs to a level. -/
theorem exists_operation? {operator : Operator} (h : Operator.ofSpecial? sign = some operator) :
    ∃ level part operation, Level.parts? level = some part ∧
      level.operation? sign = some operation := by
  unfold Operator.ofSpecial? at h
  split at h <;> cases h
  · exact ⟨.product, .unit, .mul, rfl, rfl⟩
  · exact ⟨.product, .unit, .div, rfl, rfl⟩
  · exact ⟨.sum, .product, .add, rfl, rfl⟩
  · exact ⟨.sum, .product, .sub, rfl, rfl⟩
  · exact ⟨.expression, .sum, .compare _, rfl, rfl⟩

end Formula.Level

namespace Operator

/-- An operation that comes out finds the types of its operands and completes their code. -/
theorem apply_operation (operation : Operation) (left right : Formula) (rest : List ValueType)
    (code : Code) :
    operation.operator.apply ⟨right.type :: left.type :: rest, code⟩ =
      .ok ⟨(Formula.binary operation left right).type :: rest,
        code ++ (promotion left.isFloat right.isFloat ++
          [Assembly.op (operation.opcode (left.isFloat || right.isFloat))])⟩ := by
  cases hleft : left.isFloat <;> cases hright : right.isFloat <;> cases operation with
  | compare kind =>
      cases kind <;>
        simp [Operation.operator, apply, Formula.type, Formula.isFloat, hleft, hright,
          Assembly.compare, Assembly.binary, ValueType.isFloat, promotion, Operation.opcode]
  | _ =>
      simp [Operation.operator, apply, Formula.type, Formula.isFloat, hleft, hright, Assembly.add,
        Assembly.sub, Assembly.mul, Assembly.div, Assembly.binary, ValueType.isFloat, promotion,
        Operation.opcode, joinTypes]

theorem apply_negate (inner : Formula) (rest : List ValueType) (code : Code) :
    Operator.negate.apply ⟨inner.type :: rest, code⟩ =
      .ok ⟨(Formula.negate inner).type :: rest,
        code ++ [Assembly.op (if inner.isFloat then .negateFloat else .negateInt)]⟩ := by
  cases h : inner.isFloat <;>
    simp [apply, Formula.type, Formula.isFloat, Assembly.negate, ValueType.isFloat, h]

/-- Emits operators from the top of a stack. -/
def emitAll (operators : List Operator) (values : Emitted) : Except Defect Emitted :=
  operators.foldlM (fun values operator => operator.apply values) values

theorem emit_all_append_singleton (operators : List Operator) (operator : Operator)
    {values between : Emitted} (h : emitAll operators values = .ok between) :
    emitAll (operators ++ [operator]) values = operator.apply between := by
  simp only [emitAll, List.foldlM_append, List.foldlM_cons, List.foldlM_nil, bind_pure]
  rw [show operators.foldlM (fun values operator => operator.apply values) values = .ok between
    from h]
  rfl

/-- Operators need something to work on. -/
theorem operands_ne_nil_of_emit_all {operators : List Operator} {values out : Emitted}
    (h : emitAll operators values = .ok out) (hout : out.operands ≠ []) :
    values.operands ≠ [] := by
  cases operators with
  | nil =>
      cases h
      exact hout
  | cons operator operators =>
      intro hnil
      have happly : ∃ defect, operator.apply values = .error defect := by
        cases operator <;> simp [apply, hnil]
      obtain ⟨defect, hdefect⟩ := happly
      simp only [emitAll, List.foldlM_cons, hdefect] at h
      cases h

/-- The operators that pass the test come out, and those below stay. -/
theorem emit_while_append {test : Option Operator → Bool} {waiting rest : List Operator}
    {values out : Emitted} (hall : ∀ operator ∈ waiting, test (some operator))
    (hstop : test rest.head? = false)
    (hemit : emitAll waiting values = .ok out) :
    emitWhile test (waiting ++ rest) values = .ok (rest, out) := by
  induction waiting generalizing values with
  | nil =>
      cases hemit
      cases rest <;> simp_all [emitWhile]
  | cons operator waiting ih =>
      have htrue := hall operator (by simp)
      simp only [emitAll, List.foldlM_cons] at hemit
      rcases happly : operator.apply values with defect | next
      · rw [happly] at hemit
        cases hemit
      · rw [happly] at hemit
        rw [List.cons_append, emitWhile, if_pos htrue, happly]
        exact ih (fun o ho => hall o (by simp [ho])) hemit

end Operator

/-! ### One token -/

namespace Operand

variable (pool : Literals)

theorem push_int_eq (value : Int32) :
    Assembly.pushInt value pool = ((int value).code pool, pool.append (int value).literals) := by
  simp [Assembly.pushInt, Literals.addInteger, code, literals, Literals.append]

theorem push_float_eq (value : Binary32) :
    Assembly.pushFloat value pool =
      ((float value).code pool, pool.append (float value).literals) := by
  simp [Assembly.pushFloat, Literals.addFloat, code, literals, Literals.append]

theorem fetch_local_eq (type : ValueType) (index : Nat) :
    Assembly.fetchLocal type index = (localVariable type index).code pool := by
  cases type <;> rfl

theorem fetch_global_eq (type : ValueType) (name : String) :
    Assembly.fetchGlobal type name pool =
      ((globalVariable type name).code pool, pool.append (globalVariable type name).literals) := by
  cases type <;>
    simp [Assembly.fetchGlobal, Assembly.pushString, Assembly.byType, Literals.addString, code,
      literals, Literals.append]

theorem operand_eq_type_local_variable (type : ValueType) (index : Nat) :
    type.operand = (localVariable type index).type := by
  cases type <;> rfl

theorem operand_eq_type_global_variable (type : ValueType) (name : String) :
    type.operand = (globalVariable type name).type := by
  cases type <;> rfl

end Operand

namespace Expression

/-- What an expression is read for. -/
structure Role where
  /-- It is an argument. -/
  argument : Bool := false
  /-- It may be missing. -/
  optional : Bool := false

/-- What the expression is read for. -/
def role (e : Expression) : Role :=
  ⟨e.argument, e.progress.optional⟩

/-- A plain expression with these values and waiting operators. No object waits for its member or
function. -/
structure Holds (e : Expression) (role : Role) (values : Emitted) (operators : List Operator)
    (nextOperand : Bool) : Prop where
  object : e.object = ""
  role : e.role = role
  values : e.values = values
  operators : e.operators = operators
  /-- An operand has been read if none has to follow. -/
  started : nextOperand = false → e.progress.empty = false ∧ e.first = false
  nextOperand : e.nextOperand = nextOperand

theorem Holds.optional {e : Expression} {values : Emitted} {operators : List Operator}
    {nextOperand : Bool} (he : e.Holds {} values operators nextOperand) :
    e.progress.optional = false :=
  congrArg Role.optional he.role

/-- The expression takes a token, on any session with these variables and literals. -/
def Takes (env : Environment) (locals : Locals) (token : Token) (location : Location)
    (e : Expression) (pool : Literals) (e' : Expression) (pool' : Literals) : Prop :=
  ∀ {n : Nat} (nested : Reading n Expression Unit) (s : Session) (h : s.unread ≤ n),
    s.locals = locals → s.literals = pool →
      (feed env nested token location).run e s h = ⟨.ok .more, e', { s with literals := pool' }⟩

/-- The expression ends in front of a token or stops at it. -/
def Declines (env : Environment) (token : Token) (location : Location) (e : Expression) : Prop :=
  ∀ {n : Nat} (nested : Reading n Expression Unit) (s : Session) (h : s.unread ≤ n),
    ((feed env nested token location).run e s h).outcome = .ok (.handBack token) ∨
      ∃ reason, ((feed env nested token location).run e s h).outcome = .error reason

section Steps

variable {env : Environment} {locals : Locals} {location : Location} {e : Expression}
  {pool : Literals} {role : Role} {values : Emitted} {operators : List Operator}

theorem takes_operand (he : e.Holds role values operators true) {token : Token} {operand : Operand}
    (hoperand : Operand.ofToken? env locals token = some operand) :
    ∃ e', Takes env locals token location e pool e' (pool.append operand.literals) ∧
      e'.Holds role ⟨operand.type :: values.operands, values.code ++ operand.code pool⟩ operators
        false := by
  obtain ⟨hobject, rfl, rfl, rfl, -, hnext⟩ := he
  refine ⟨{ e with
      progress := e.progress.start, first := false, nextOperand := false
      values := ⟨operand.type :: e.values.operands, e.values.code ++ operand.code pool⟩
      location := match token with | .name _ => e.location | _ => location },
    ?_, ⟨hobject, rfl, rfl, rfl, fun _ => ⟨rfl, rfl⟩, rfl⟩⟩
  rintro n nested s h rfl rfl
  cases token with
  | int value =>
      cases hoperand
      simp [feed, feedNumber, hobject, hnext, start, emitWith, place, emit, pushOperand,
        Operand.push_int_eq, Operand.type, ValueType.operand, ValueType.isFloat]
  | float value =>
      cases hoperand
      simp [feed, feedNumber, hobject, hnext, start, emitWith, place, emit, pushOperand,
        Operand.push_float_eq, Operand.type, ValueType.operand, ValueType.isFloat]
  | name name =>
      -- A name is looked up among the local variables first, here as there.
      simp only [Operand.ofToken?] at hoperand
      cases htype : s.locals.typeOf? (Text.toLower name) with
      | some type =>
          obtain ⟨index, hindex, -⟩ := Locals.exists_index_of?_eq htype
          simp only [htype, hindex, Option.some.injEq] at hoperand
          subst hoperand
          simp [feed, feedName, feedOperand, hobject, hnext, start, htype, hindex, emit,
            pushOperand, Operand.fetch_local_eq s.literals,
            Operand.operand_eq_type_local_variable type index, Operand.literals]
      | none =>
          simp only [htype, Option.map_eq_some_iff] at hoperand
          obtain ⟨type, hglobal, rfl⟩ := hoperand
          simp [feed, feedName, feedOperand, hobject, hnext, start, htype, hglobal, emitWith,
            emit, pushOperand, Operand.fetch_global_eq,
            Operand.operand_eq_type_global_variable type (Text.toLower name)]
  | keyword word => cases hoperand
  | special sign => cases hoperand
  | comment text => cases hoperand
  | endOfText => cases hoperand

theorem takes_plus (he : e.Holds role values operators true) :
    ∃ e', Takes env locals (.special .plus) location e pool e' pool ∧
      e'.Holds role values operators true := by
  obtain ⟨hobject, rfl, rfl, rfl, -, hnext⟩ := he
  refine ⟨{ e with first := false, location }, ?_, ⟨hobject, rfl, rfl, rfl, nofun, hnext⟩⟩
  rintro n nested s h rfl rfl
  simp [feed, feedSpecial, feedBeforeOperand, hobject, hnext]

/-- A comma is passed over at the very beginning. -/
theorem takes_comma (he : e.Holds role values operators true) (hfirst : e.first = true) :
    ∃ e', Takes env locals (.special .comma) location e pool e' pool ∧
      e'.Holds role values operators true := by
  obtain ⟨hobject, rfl, rfl, rfl, -, hnext⟩ := he
  refine ⟨{ e with first := false, location }, ?_, ⟨hobject, rfl, rfl, rfl, nofun, hnext⟩⟩
  rintro n nested s h rfl rfl
  simp [feed, feedSpecial, hobject, hfirst]

theorem takes_minus (he : e.Holds role values operators true) :
    ∃ e', Takes env locals (.special .minus) location e pool e' pool ∧
      e'.Holds role values (.negate :: operators) true := by
  obtain ⟨hobject, rfl, rfl, rfl, -, hnext⟩ := he
  refine ⟨{ e.pushOperator .negate with first := false, location }, ?_,
    ⟨hobject, rfl, rfl, rfl, nofun, hnext⟩⟩
  rintro n nested s h rfl rfl
  simp [feed, feedSpecial, feedBeforeOperand, hobject, hnext, pushOperator]

theorem takes_opening (he : e.Holds role values operators true) :
    ∃ e', Takes env locals (.special .opening) location e pool e' pool ∧
      e'.Holds role values (.opening :: operators) true := by
  obtain ⟨hobject, rfl, rfl, rfl, -, hnext⟩ := he
  refine ⟨{ e.pushOperator .opening with first := false, location }, ?_,
    ⟨hobject, rfl, rfl, rfl, nofun, hnext⟩⟩
  rintro n nested s h rfl rfl
  simp [feed, feedSpecial, feedBeforeOperand, hobject, hnext, pushOperator]

theorem takes_closing (he : e.Holds role values operators false) (hopen : .opening ∈ operators)
    {rest : List Operator} {out : Emitted}
    (hemit : Operator.emitWhile (· != some .opening) operators values = .ok (rest, out)) :
    ∃ e', Takes env locals (.special .closing) location e pool e' pool ∧
      e'.Holds role out (rest.drop 1) false := by
  obtain ⟨hobject, rfl, rfl, rfl, hstarted, hnext⟩ := he
  refine ⟨{ e with first := false, operators := rest.drop 1, values := out }, ?_,
    ⟨hobject, rfl, rfl, rfl, fun h => ⟨(hstarted h).1, rfl⟩, hnext⟩⟩
  rintro n nested s h rfl rfl
  simp [feed, feedSpecial, feedBehindOperand, hobject, hnext, isOpen, hopen, close,
    emitOperators, hemit]

theorem takes_operator (he : e.Holds role values operators false) {sign : Special}
    {operator : Operator} (hsign : Operator.ofSpecial? sign = some operator)
    (hrole : role.argument = true → operator = .mul ∨ operator = .div ∨ .opening ∈ operators)
    {rest : List Operator} {out : Emitted}
    (hemit : Operator.emitWhile
      (·.any fun top => decide (operator.priority ≤ top.priority)) operators
      values = .ok (rest, out)) :
    ∃ e', Takes env locals (.special sign) location e pool e' pool ∧
      e'.Holds role out (operator :: rest) true := by
  obtain ⟨hobject, rfl, rfl, rfl, -, hnext⟩ := he
  refine ⟨{ e with
      first := false, location, operators := operator :: rest, values := out
      nextOperand := true },
    ?_, ⟨hobject, rfl, rfl, rfl, nofun, rfl⟩⟩
  rintro n nested s h rfl rfl
  -- An argument ends here only if no parenthesis is open.
  have htaken : ¬(¬operator = .mul ∧ ¬operator = .div ∧ e.argument = true ∧
      .opening ∉ e.operators) := by
    rintro ⟨hmul, hdiv, hargument, hclosed⟩
    exact hclosed (((hrole hargument).resolve_left hmul).resolve_left hdiv)
  cases sign with
  | newline | opening | closing | comma | reference | member => cases hsign
  | comparison | plus | minus | times | divided =>
      simp [feed, feedSpecial, feedBehindOperand, hobject, hnext, isOpen, htaken, pushBinary,
        emitOperators, hemit, hsign, pushOperator]

theorem outcome_refuse {n : Nat} {token : Token} {s : Session} {h : s.unread ≤ n}
    (hoptional : e.progress.optional = false) :
    ((refuse token location : Reading n Expression Verdict).run e s h).outcome =
      .error .source := by
  simp [refuse, Progress.refuse, hoptional, Reading.refuse]
  rfl

/-- An operand behind an operand is not taken. -/
theorem declines_operand (he : e.Holds {} values operators false) {token : Token}
    {operand : Operand} (hoperand : Operand.ofToken? env locals token = some operand) :
    Declines env token location e := by
  intro n nested s h
  refine Or.inl ?_
  cases token with
  | int value => simp [feed, feedNumber, he.object, he.nextOperand]
  | float value => simp [feed, feedNumber, he.object, he.nextOperand]
  | name name => simp [feed, feedName, feedOperand, he.object, he.nextOperand]
  | keyword word => cases hoperand
  | special sign => cases hoperand
  | comment text => cases hoperand
  | endOfText => cases hoperand

/-- Where an operand has to follow, only plus, minus and an opening parenthesis are taken. -/
theorem declines_before_operand (he : e.Holds {} values operators true) {sign : Special}
    (hsymbol : Symbol env locals (.special sign)) (hplus : sign ≠ .plus) (hminus : sign ≠ .minus)
    (hopening : sign ≠ .opening) : Declines env (.special sign) location e := by
  intro n nested s h
  refine Or.inr ⟨.source, ?_⟩
  cases sign with
  | newline | comma | reference | member => cases hsymbol
  | plus => exact absurd rfl hplus
  | minus => exact absurd rfl hminus
  | opening => exact absurd rfl hopening
  | closing | comparison | times | divided =>
      simp [feed, feedSpecial, feedBeforeOperand, he.object, he.nextOperand, outcome_refuse,
        he.optional]

theorem declines_opening (he : e.Holds {} values operators false) :
    Declines env (.special .opening) location e := by
  intro n nested s h
  refine Or.inl ?_
  simp [feed, feedSpecial, feedBehindOperand, he.object, he.nextOperand]

theorem declines_closing (he : e.Holds {} values operators false)
    (hclosed : .opening ∉ operators ∨
      ∃ defect, Operator.emitWhile (· != some .opening) operators values = .error defect) :
    Declines env (.special .closing) location e := by
  intro n nested s h
  obtain ⟨hobject, -, rfl, rfl, -, hnext⟩ := he
  by_cases hopen : .opening ∈ e.operators
  · obtain ⟨defect, hdefect⟩ := hclosed.resolve_left (not_not_intro hopen)
    refine Or.inr ⟨.internal defect, ?_⟩
    simp [feed, feedSpecial, feedBehindOperand, hobject, hnext, isOpen, hopen, close,
      emitOperators, hdefect]
  · refine Or.inl ?_
    simp [feed, feedSpecial, feedBehindOperand, hobject, hnext, isOpen, hopen]

theorem declines_operator (he : e.Holds {} values operators false) {sign : Special}
    {operator : Operator} (hsign : Operator.ofSpecial? sign = some operator) {defect : Defect}
    (hdefect : Operator.emitWhile
      (·.any fun top => decide (operator.priority ≤ top.priority)) operators
      values = .error defect) :
    Declines env (.special sign) location e := by
  intro n nested s h
  have hargument : e.argument = false := congrArg Role.argument he.role
  obtain ⟨hobject, -, rfl, rfl, -, hnext⟩ := he
  refine Or.inr ⟨.internal defect, ?_⟩
  cases sign with
  | newline | opening | closing | comma | reference | member => cases hsign
  | comparison | plus | minus | times | divided =>
      simp [feed, feedSpecial, feedBehindOperand, hobject, hnext, hargument, pushBinary,
        emitOperators, hdefect, hsign]

end Steps

end Expression

/-! ### What the grammar makes of a step -/

namespace Operator

variable {test : Option Operator → Bool} {operators rest : List Operator} {values out : Emitted}

/-- Emitting operators closes no parenthesis if the test keeps them. -/
theorem count_opening_emit_while (htest : test (some .opening) = false)
    (h : emitWhile test operators values = .ok (rest, out)) :
    rest.count .opening = operators.count .opening := by
  induction operators generalizing values with
  | nil =>
      rw [emitWhile] at h
      split at h <;> cases h
      rfl
  | cons operator operators ih =>
      rw [emitWhile] at h
      split at h
      · next hpass =>
          rcases happly : operator.apply values with defect | between
          · rw [happly] at h
            cases h
          · rw [happly] at h
            have hne : operator ≠ .opening := by
              rintro rfl
              rw [htest] at hpass
              cases hpass
            rw [ih h, List.count_cons_of_ne hne]
      · cases h
        rfl

/-- Operators come out down to the innermost parenthesis. -/
theorem exists_opening_of_emit_while
    (h : emitWhile (· != some .opening) operators values = .ok (rest, out)) :
    ∃ below, rest = .opening :: below := by
  induction operators generalizing values with
  | nil => cases h
  | cons operator operators ih =>
      rw [emitWhile] at h
      split at h
      · next hpass =>
          rcases happly : operator.apply values with defect | between
          · rw [happly] at h
            cases h
          · rw [happly] at h
            exact ih h
      · next hstop =>
          cases h
          simp only [bne_iff_ne, ne_eq, not_not] at hstop
          cases hstop
          exact ⟨operators, rfl⟩

end Operator

namespace Formula

variable {env : Environment} {locals : Locals} {token : Token}

/-- What a token does to the number of open parentheses and to whether an operand has to follow. -/
inductive Moves (env : Environment) (locals : Locals) : Token → Nat → Bool → Nat → Bool → Prop where
  | operand {token : Token} {depth : Nat} (h : (Operand.ofToken? env locals token).isSome) :
      Moves env locals token depth true depth false
  | plus {depth : Nat} : Moves env locals (.special .plus) depth true depth true
  | minus {depth : Nat} : Moves env locals (.special .minus) depth true depth true
  | opening {depth : Nat} : Moves env locals (.special .opening) depth true (depth + 1) true
  | closing {depth : Nat} : Moves env locals (.special .closing) (depth + 1) false depth false
  | operation {sign : Special} {operator : Operator} {depth : Nat}
      (h : Operator.ofSpecial? sign = some operator) :
      Moves env locals (.special sign) depth false depth true

end Formula

namespace Expression

variable {env : Environment} {locals : Locals} {e : Expression} {values : Emitted}
  {operators : List Operator} {next : Bool}

/-- The expression takes the token and moves on as the grammar says, or it does not take it. -/
def Steps (env : Environment) (locals : Locals) (token : Token) (location : Location)
    (e : Expression) (pool : Literals) (operators : List Operator) (next : Bool) : Prop :=
  (∃ e' pool' values' operators' next', Takes env locals token location e pool e' pool' ∧
    e'.Holds {} values' operators' next' ∧
    Moves env locals token (operators.count .opening) next (operators'.count .opening) next') ∨
  Declines env token location e

theorem Holds.steps_operand (he : e.Holds {} values operators next) {token : Token}
    (hsome : (Operand.ofToken? env locals token).isSome) (location : Location)
    (pool : Literals) : Steps env locals token location e pool operators next := by
  obtain ⟨operand, hoperand⟩ := Option.isSome_iff_exists.1 hsome
  cases next with
  | true =>
      obtain ⟨e', htakes, he'⟩ := takes_operand he hoperand
      exact Or.inl ⟨_, _, _, _, _, htakes, he', .operand hsome⟩
  | false => exact Or.inr (declines_operand he hoperand)

theorem Holds.steps_before_operand (he : e.Holds {} values operators true) {sign : Special}
    (hsymbol : Symbol env locals (.special sign)) (location : Location) (pool : Literals) :
    Steps env locals (.special sign) location e pool operators true := by
  by_cases hplus : sign = .plus
  · subst hplus
    obtain ⟨e', htakes, he'⟩ := takes_plus he
    exact Or.inl ⟨_, _, _, _, _, htakes, he', .plus⟩
  by_cases hminus : sign = .minus
  · subst hminus
    obtain ⟨e', htakes, he'⟩ := takes_minus he
    exact Or.inl ⟨_, _, _, _, _, htakes, he', .minus⟩
  by_cases hopening : sign = .opening
  · subst hopening
    obtain ⟨e', htakes, he'⟩ := takes_opening he
    refine Or.inl ⟨_, _, _, _, _, htakes, he', ?_⟩
    rw [List.count_cons_self]
    exact .opening
  · exact Or.inr (declines_before_operand he hsymbol hplus hminus hopening)

theorem Holds.steps_closing (he : e.Holds {} values operators false) (location : Location)
    (pool : Literals) : Steps env locals (.special .closing) location e pool operators false := by
  by_cases hopen : .opening ∈ operators
  · rcases hemit : Operator.emitWhile (· != some .opening) operators values
      with defect | ⟨rest, out⟩
    · exact Or.inr (declines_closing he (Or.inr ⟨defect, hemit⟩))
    · obtain ⟨e', htakes, he'⟩ := takes_closing he hopen hemit
      obtain ⟨below, rfl⟩ := Operator.exists_opening_of_emit_while hemit
      refine Or.inl ⟨_, _, _, _, _, htakes, he', ?_⟩
      rw [← Operator.count_opening_emit_while rfl hemit, List.count_cons_self]
      exact .closing
  · exact Or.inr (declines_closing he (Or.inl hopen))

theorem Holds.steps_operator (he : e.Holds {} values operators false) {sign : Special}
    {operator : Operator} (hsign : Operator.ofSpecial? sign = some operator)
    (location : Location) (pool : Literals) :
    Steps env locals (.special sign) location e pool operators false := by
  obtain ⟨level, part, operation, -, hlevel⟩ := Level.exists_operation? hsign
  cases (Level.of_special?_of_operation? hlevel).symm.trans hsign
  have hpos : 1 ≤ operation.operator.priority :=
    (Level.priority_of_operation? hlevel).symm ▸ level.one_le_rank
  rcases hemit : Operator.emitWhile
    (·.any fun top => decide (operation.operator.priority ≤ top.priority)) operators values
      with defect | ⟨rest, out⟩
  · exact Or.inr (declines_operator he hsign hemit)
  · obtain ⟨e', htakes, he'⟩ := takes_operator he hsign nofun hemit
    refine Or.inl ⟨_, _, _, _, _, htakes, he', ?_⟩
    have hstop : decide (operation.operator.priority ≤ Operator.opening.priority) = false :=
      decide_eq_false (Nat.not_le.2 hpos)
    have hne : operation.operator ≠ .opening := by
      cases operation <;> nofun
    rw [List.count_cons_of_ne hne, Operator.count_opening_emit_while hstop hemit]
    exact .operation hsign

/-- A symbol is taken as the grammar says, or it is not taken. -/
theorem Holds.steps (he : e.Holds {} values operators next) {token : Token}
    (hsymbol : Symbol env locals token) (location : Location) (pool : Literals) :
    Steps env locals token location e pool operators next := by
  cases token with
  | int | float | name | keyword | comment | endOfText =>
      exact he.steps_operand hsymbol location pool
  | special sign =>
      cases next with
      | true => exact he.steps_before_operand hsymbol location pool
      | false =>
          cases sign with
          | newline | comma | reference | member => cases hsymbol
          | opening => exact Or.inr (declines_opening he)
          | closing => exact he.steps_closing location pool
          | comparison | plus | minus | times | divided =>
              exact he.steps_operator rfl location pool

end Expression

/-! ### What has been read is the start of an expression -/

namespace Formula

variable {env : Environment} {locals : Locals} {tokens : List Token} {depth depth' : Nat}
  {next next' : Bool}

/-- The tokens form something of the level. -/
def Forms (env : Environment) (locals : Locals) (level : Level) (tokens : List Token) : Prop :=
  ∃ formula, Derives env locals level tokens formula

/-- A unit is something of every level. -/
theorem Forms.of_unit {level : Level} (h : Forms env locals .unit tokens) :
    Forms env locals level tokens := by
  obtain ⟨formula, hunit⟩ := h
  have hproduct : Derives env locals .product tokens formula := .single rfl hunit
  have hsum : Derives env locals .sum tokens formula := .single rfl hproduct
  have hexpression : Derives env locals .expression tokens formula := .single rfl hsum
  cases level with
  | expression => exact ⟨formula, hexpression⟩
  | sum => exact ⟨formula, hsum⟩
  | product => exact ⟨formula, hproduct⟩
  | unit => exact ⟨formula, hunit⟩

/-- A sign and a unit can be put behind anything of a level that the sign binds no looser than. -/
theorem Derives.forms_append {level part inner : Level} {sign : Special} {operation : Operation}
    {left right : List Token} {formula : Formula} (hleft : Derives env locals level left formula)
    (hpart : inner.parts? = some part) (hsign : inner.operation? sign = some operation)
    (hle : level.rank ≤ inner.rank) (hright : Forms env locals .unit right) :
    Forms env locals level (left ++ .special sign :: right) := by
  have hunit : inner.rank < Level.unit.rank := by
    cases inner <;> cases hpart <;> decide
  -- The sign belongs to the level itself, or to the last part of what is on the left.
  have hhere : ∀ {level : Level} {left : List Token} {formula : Formula},
      Derives env locals level left formula → level.rank = inner.rank →
        Forms env locals level (left ++ .special sign :: right) := by
    intro level left formula hleft hrank
    obtain rfl := Level.rank_injective hrank
    obtain ⟨rightFormula, hright⟩ : Forms env locals part right := hright.of_unit
    exact ⟨_, .binary hpart hsign hleft hright⟩
  induction hleft with
  | atom | plus | minus | group => omega
  | @single level part' left formula hpart' hleft ih =>
      have hrank := Level.rank_of_parts? hpart'
      by_cases heq : level.rank = inner.rank
      · exact hhere (.single hpart' hleft) heq
      · obtain ⟨formula', hformula'⟩ := ih (by omega)
        exact ⟨formula', .single hpart' hformula'⟩
  | @binary level part' sign' operation' first second firstFormula secondFormula hpart' hsign'
      hfirst hsecond _ ih =>
      have hrank := Level.rank_of_parts? hpart'
      by_cases heq : level.rank = inner.rank
      · exact hhere (.binary hpart' hsign' hfirst hsecond) heq
      · obtain ⟨formula', hformula'⟩ := ih (by omega)
        rw [List.append_assoc, List.cons_append]
        exact ⟨_, .binary hpart' hsign' hfirst hformula'⟩

/-- The tokens are an expression, or they become one behind which a unit is put. -/
def Unfinished (env : Environment) (locals : Locals) (next : Bool) (tokens : List Token) : Prop :=
  if next then ∀ unit, Forms env locals .unit unit → Forms env locals .expression (tokens ++ unit)
  else Forms env locals .expression tokens

/-- The tokens are a row of unfinished expressions with opening parentheses between them. -/
def Awaits (env : Environment) (locals : Locals) : Nat → Bool → List Token → Prop
  | 0, next, tokens => Unfinished env locals next tokens
  | depth + 1, next, tokens =>
    ∃ outer inner, tokens = outer ++ .special .opening :: inner ∧
      Awaits env locals depth true outer ∧ Unfinished env locals next inner

theorem unfinished_nil : Unfinished env locals true [] := by
  intro unit hunit
  exact hunit.of_unit

/-- The last of the unfinished expressions may become another one. -/
theorem Awaits.map (h : Awaits env locals depth next tokens) {more : List Token}
    (hlast : ∀ tokens, Unfinished env locals next tokens →
      Unfinished env locals next' (tokens ++ more)) :
    Awaits env locals depth next' (tokens ++ more) := by
  cases depth with
  | zero => exact hlast tokens h
  | succ depth =>
      obtain ⟨outer, inner, rfl, houter, hinner⟩ := h
      exact ⟨outer, inner ++ more, by simp, houter, hlast inner hinner⟩

theorem Awaits.append_unit (h : Awaits env locals depth true tokens) {unit : List Token}
    (hunit : Forms env locals .unit unit) : Awaits env locals depth false (tokens ++ unit) :=
  h.map fun _ htokens => htokens unit hunit

/-- A step of the reader leads from a row of unfinished expressions to another one. -/
theorem Awaits.move {token : Token} (h : Awaits env locals depth next tokens)
    (hmove : Moves env locals token depth next depth' next') :
    Awaits env locals depth' next' (tokens ++ [token]) := by
  cases hmove with
  | operand hsome =>
      obtain ⟨operand, hoperand⟩ := Option.isSome_iff_exists.1 hsome
      exact h.append_unit ⟨_, .atom hoperand⟩
  | plus =>
      refine h.map fun tokens htokens unit hunit => ?_
      obtain ⟨formula, hformula⟩ := hunit
      rw [List.append_assoc]
      exact htokens _ ⟨formula, .plus hformula⟩
  | minus =>
      refine h.map fun tokens htokens unit hunit => ?_
      obtain ⟨formula, hformula⟩ := hunit
      rw [List.append_assoc]
      exact htokens _ ⟨_, .minus hformula⟩
  | opening => exact ⟨tokens, [], rfl, h, unfinished_nil⟩
  | closing =>
      obtain ⟨outer, inner, rfl, houter, formula, hinner⟩ := h
      have hunit : Forms env locals .unit (.special .opening :: inner ++ [.special .closing]) :=
        ⟨formula, .group hinner⟩
      simpa using houter.append_unit hunit
  | @operation sign operator depth hsign =>
      obtain ⟨level, part, operation, hpart, hlevel⟩ := Level.exists_operation? hsign
      refine h.map fun tokens htokens unit hunit => ?_
      obtain ⟨formula, hformula⟩ := htokens
      rw [List.append_assoc]
      exact hformula.forms_append hpart hlevel level.one_le_rank hunit

end Formula

/-! ### What the grammar derives is read -/

namespace Expression

/-- The expression takes tokens one after the other. -/
inductive TakesAll (env : Environment) (locals : Locals) :
    List (Token × Location) → Expression → Literals → Expression → Literals → Prop where
  | nil (e : Expression) (pool : Literals) : TakesAll env locals [] e pool e pool
  | cons {token : Token} {location : Location} {tokens : List (Token × Location)}
      {e between final : Expression} {pool pool' pool'' : Literals}
      (hfirst : Takes env locals token location e pool between pool')
      (hrest : TakesAll env locals tokens between pool' final pool'') :
      TakesAll env locals ((token, location) :: tokens) e pool final pool''

section Derived

variable {env : Environment} {locals : Locals} {e between final : Expression}
  {pool pool' pool'' : Literals} {tokens more : List (Token × Location)}

theorem TakesAll.append (hfirst : TakesAll env locals tokens e pool between pool')
    (hrest : TakesAll env locals more between pool' final pool'') :
    TakesAll env locals (tokens ++ more) e pool final pool'' := by
  induction hfirst with
  | nil => exact hrest
  | cons hhead _ ih => exact .cons hhead (ih hrest)

/-- The tokens of a formula are read from any state where the formula may stand: if the topmost
operator binds looser than the level. The operators that wait afterwards for the end of the formula
bind at least as tightly as the level, and complete its code. -/
def Reads (env : Environment) (locals : Locals) (level : Level) (tokens : List (Token × Location))
    (formula : Formula) : Prop :=
  ∀ ⦃role : Role⦄ (e : Expression) (pool : Literals) (values : Emitted)
    (operators : List Operator),
    e.Holds role values operators true →
    (level ≠ .unit → (∀ operator ∈ operators.head?, operator.priority < level.rank) ∧
      (role.argument = true → Level.product.rank ≤ level.rank ∨ .opening ∈ operators)) →
    ∃ e' values' waiting,
      TakesAll env locals tokens e pool e' (pool.append formula.literals) ∧
      e'.Holds role values' (waiting ++ operators) false ∧
      (∀ operator ∈ waiting, level.rank ≤ operator.priority) ∧
      Operator.emitAll waiting values' =
        .ok ⟨formula.type :: values.operands, values.code ++ formula.code pool⟩

theorem reads_atom {token : Token} {operand : Operand} (location : Location)
    (hoperand : Operand.ofToken? env locals token = some operand) :
    Reads env locals .unit [(token, location)] (.atom operand) := by
  intro role e pool values operators he _
  obtain ⟨e', htakes, he'⟩ := takes_operand he hoperand
  have htype : (Formula.atom operand).type = operand.type := by
    cases operand <;> simp [Formula.type, Formula.isFloat, Operand.type]
  refine ⟨e', _, [], .cons htakes (.nil _ _), he', nofun, ?_⟩
  rw [htype]
  rfl

theorem Reads.plus {formula : Formula} (h : Reads env locals .unit tokens formula)
    (location : Location) :
    Reads env locals .unit ((.special .plus, location) :: tokens) formula := by
  intro role e pool values operators he hhead
  obtain ⟨between, htakes, hbetween⟩ := takes_plus he
  obtain ⟨e', values', waiting, hall, he', hwaiting, hemit⟩ :=
    h between pool values operators hbetween hhead
  exact ⟨e', values', waiting, .cons htakes hall, he', hwaiting, hemit⟩

theorem Reads.minus {formula : Formula} (h : Reads env locals .unit tokens formula)
    (location : Location) :
    Reads env locals .unit ((.special .minus, location) :: tokens) (.negate formula) := by
  intro role e pool values operators he _
  obtain ⟨between, htakes, hbetween⟩ := takes_minus he
  obtain ⟨e', values', waiting, hall, he', hwaiting, hemit⟩ :=
    h between pool values (.negate :: operators) hbetween (absurd rfl)
  refine ⟨e', values', waiting ++ [.negate], .cons htakes hall, by simpa using he', ?_, ?_⟩
  · intro operator hoperator
    obtain hoperator | hoperator := List.mem_append.1 hoperator
    · exact hwaiting operator hoperator
    · rw [List.mem_singleton.1 hoperator]
      exact Nat.le_refl _
  · rw [Operator.emit_all_append_singleton _ _ hemit, Operator.apply_negate, Formula.code,
      List.append_assoc]

theorem Reads.group {formula : Formula} (h : Reads env locals .expression tokens formula)
    (location location' : Location) :
    Reads env locals .unit
      ((.special .opening, location) :: tokens ++ [(.special .closing, location')]) formula := by
  intro role e pool values operators he _
  obtain ⟨between, htakes, hbetween⟩ := takes_opening he
  obtain ⟨inner, values', waiting, hall, hinner, hwaiting, hemit⟩ :=
    h between pool values (.opening :: operators) hbetween
      fun _ => ⟨by simp [Operator.priority, Level.rank], fun _ => Or.inr List.mem_cons_self⟩
  have hpass : ∀ operator ∈ waiting, (operator != .opening) = true := by
    intro operator hoperator
    rw [bne_iff_ne]
    rintro rfl
    exact absurd (hwaiting _ hoperator) (by decide)
  have hclose : Operator.emitWhile (· != some .opening) (waiting ++ .opening :: operators) values' =
      .ok (.opening :: operators, _) :=
    Operator.emit_while_append hpass (by simp) hemit
  obtain ⟨e', htakes', he'⟩ := takes_closing hinner (by simp) hclose
  exact ⟨e', _, [], .cons htakes (hall.append (.cons htakes' (.nil _ _))), he', nofun, rfl⟩

theorem Reads.single {level part : Level} {formula : Formula} (hpart : level.parts? = some part)
    (h : Reads env locals part tokens formula) : Reads env locals level tokens formula := by
  intro role e pool values operators he hhead
  have hrank := Level.rank_of_parts? hpart
  have hlevel : level ≠ .unit := by
    rintro rfl
    cases hpart
  obtain ⟨e', values', waiting, hall, he', hwaiting, hemit⟩ :=
    h e pool values operators he fun _ => by
      obtain ⟨hlooser, hallowed⟩ := hhead hlevel
      refine ⟨fun operator hoperator => ?_, fun hargument => (hallowed hargument).imp_left ?_⟩
      · have := hlooser operator hoperator
        omega
      · omega
  refine ⟨e', values', waiting, hall, he', fun operator hoperator => ?_, hemit⟩
  have := hwaiting operator hoperator
  omega

theorem Reads.binary {level part : Level} {sign : Special} {operation : Operation}
    {left right : Formula} (hpart : level.parts? = some part)
    (hsign : level.operation? sign = some operation) (hleft : Reads env locals level tokens left)
    (hright : Reads env locals part more right) (location : Location) :
    Reads env locals level (tokens ++ (.special sign, location) :: more)
      (.binary operation left right) := by
  intro role e pool values operators he hhead
  have hrank := Level.rank_of_parts? hpart
  have hpriority := Level.priority_of_operation? hsign
  have hlevel : level ≠ .unit := by
    rintro rfl
    cases hpart
  obtain ⟨hlooser, hallowed⟩ := hhead hlevel
  obtain ⟨first, values₁, waiting₁, hall₁, hfirst, hwaiting₁, hemit₁⟩ :=
    hleft e pool values operators he hhead
  -- All that waits for the left side comes out, and nothing of what was there before.
  have hout : Operator.emitWhile
      (·.any fun top => decide (operation.operator.priority ≤ top.priority))
      (waiting₁ ++ operators) values₁ =
        .ok (operators, ⟨left.type :: values.operands, values.code ++ left.code pool⟩) := by
    refine Operator.emit_while_append (fun operator hoperator => ?_) ?_ hemit₁
    · exact decide_eq_true (hpriority ▸ hwaiting₁ operator hoperator)
    · refine (Option.any_eq_false_iff_get _ _).2 fun hsome => ?_
      exact decide_eq_false (Nat.not_le.2 (hpriority ▸ hlooser _ (Option.get_mem hsome)))
  have htaken : role.argument = true → operation.operator = .mul ∨ operation.operator = .div ∨
      .opening ∈ waiting₁ ++ operators := by
    intro hargument
    obtain hproduct | hopen := hallowed hargument
    · exact (Level.mul_or_div_of_operation? hsign hproduct).imp_right Or.inl
    · exact Or.inr (Or.inr (List.mem_append_right _ hopen))
  obtain ⟨second, htakes, hsecond⟩ :=
    takes_operator hfirst (Level.of_special?_of_operation? hsign) htaken hout
  obtain ⟨e', values₂, waiting₂, hall₂, he', hwaiting₂, hemit₂⟩ :=
    hright second (pool.append left.literals) _ (operation.operator :: operators) hsecond (by
      refine fun _ => ⟨fun operator hoperator => ?_, fun hargument => ?_⟩
      · cases hoperator
        omega
      · refine (hallowed hargument).imp ?_ (List.mem_cons_of_mem _)
        omega)
  refine ⟨e', values₂, waiting₂ ++ [operation.operator], ?_, by simpa using he', ?_, ?_⟩
  · rw [Formula.literals, ← Literals.append_assoc]
    exact hall₁.append (.cons htakes hall₂)
  · intro operator hoperator
    obtain hoperator | hoperator := List.mem_append.1 hoperator
    · have := hwaiting₂ operator hoperator
      omega
    · rw [List.mem_singleton.1 hoperator, hpriority]
  · rw [Operator.emit_all_append_singleton _ _ hemit₂, Operator.apply_operation, Formula.code]
    simp only [List.append_assoc]

/-- Whatever the grammar derives is read. -/
theorem Reads.of_derives {level : Level} {spelled : List Token} {formula : Formula}
    (h : Derives env locals level spelled formula) :
    ∀ tokens : List (Token × Location), tokens.map Prod.fst = spelled →
      Reads env locals level tokens formula := by
  induction h with
  | atom hoperand =>
      intro tokens htokens
      obtain ⟨⟨token, location⟩, rest, rfl, rfl, hnil⟩ := List.map_eq_cons_iff.1 htokens
      obtain rfl := List.map_eq_nil_iff.1 hnil
      exact reads_atom location hoperand
  | plus _ ih =>
      intro tokens htokens
      obtain ⟨⟨token, location⟩, rest, rfl, hsign, hrest⟩ := List.map_eq_cons_iff.1 htokens
      obtain rfl : token = _ := hsign
      exact (ih rest hrest).plus location
  | minus _ ih =>
      intro tokens htokens
      obtain ⟨⟨token, location⟩, rest, rfl, hsign, hrest⟩ := List.map_eq_cons_iff.1 htokens
      obtain rfl : token = _ := hsign
      exact (ih rest hrest).minus location
  | group _ ih =>
      intro tokens htokens
      obtain ⟨⟨token, location⟩, rest, rfl, hsign, hrest⟩ := List.map_eq_cons_iff.1 htokens
      obtain rfl : token = _ := hsign
      obtain ⟨inner, last, rfl, hinner, hlast⟩ := List.map_eq_append_iff.1 hrest
      obtain ⟨⟨token', location'⟩, nothing, rfl, hsign', hnil⟩ := List.map_eq_cons_iff.1 hlast
      obtain rfl : token' = _ := hsign'
      obtain rfl := List.map_eq_nil_iff.1 hnil
      exact (ih inner hinner).group location location'
  | single hpart _ ih =>
      intro tokens htokens
      exact (ih tokens htokens).single hpart
  | binary hpart hsign _ _ ihleft ihright =>
      intro tokens htokens
      obtain ⟨left, rest, rfl, hleft, hrest⟩ := List.map_eq_append_iff.1 htokens
      obtain ⟨⟨token, location⟩, right, rfl, htoken, hright⟩ := List.map_eq_cons_iff.1 hrest
      obtain rfl : token = _ := htoken
      exact (ihleft left hleft).binary hpart hsign (ihright right hright) location

end Derived

end Expression

/-! ### Scanning -/

namespace Expression

/-- To finish the expression succeeds and reports nothing. -/
def FinishesQuietly (e : Expression) : Prop :=
  ∀ {n : Nat} (s : Session) (h : s.unread ≤ n), ∃ value q,
    (finish : Reading n Expression (ValueType × Code)).run e s h = ⟨.ok value, q, s⟩

section Scan

variable {env : Environment} {e : Expression} {role : Role} {values : Emitted}
  {operators : List Operator} {next : Bool}

/-- Only a complete expression finishes quietly. -/
theorem FinishesQuietly.complete (he : e.Holds role values operators next) (h : e.FinishesQuietly) :
    next = false ∧ .opening ∉ operators := by
  obtain ⟨hobject, -, rfl, rfl, -, rfl⟩ := he
  obtain ⟨value, q, hrun⟩ := h (default : Session) (Nat.le_refl _)
  have hquiet := congrArg (fun r => r.session.log.entries) hrun
  have hloud : ∀ problem location, ((default : Session).log.error problem location).entries ≠
      (default : Session).log.entries := by
    intro problem location
    simp [Log.error, Log.record, show (default : Session).log.downgrade = false from rfl]
  by_contra hbad
  simp only [finish, Reading.run_get_bind] at hquiet
  split at hquiet
  · exact hloud _ _ hquiet
  split at hquiet
  · exact hloud _ _ hquiet
  split at hquiet
  · exact hloud _ _ hquiet
  · next hnext hopen =>
      simp [isOpen] at hnext hopen
      exact hbad ⟨hnext.1, hopen⟩

/-- An expression whose waiting operators complete it finishes with the type and the code. -/
theorem run_finish {type : ValueType} {rest : List ValueType} {code : Code}
    (he : e.Holds role values operators false)
    (hoperators : ∀ operator ∈ operators, 1 ≤ operator.priority)
    (hemit : Operator.emitAll operators values = .ok ⟨type :: rest, code⟩) {n : Nat}
    (s : Session) (h : s.unread ≤ n) :
    ∃ q, (finish : Reading n Expression (ValueType × Code)).run e s h =
      ⟨.ok (type, code), q, s⟩ := by
  obtain ⟨hobject, -, rfl, rfl, -, hnext⟩ := he
  have hoperands := Operator.operands_ne_nil_of_emit_all hemit (List.cons_ne_nil _ _)
  have hclosed : .opening ∉ e.operators := fun hopen =>
    absurd (hoperators _ hopen) (by decide)
  have hall : Operator.emitWhile Option.isSome e.operators e.values =
      .ok ([], ⟨type :: rest, code⟩) := by
    rw [← List.append_nil e.operators]
    exact Operator.emit_while_append (fun _ _ => rfl) (by simp) hemit
  refine ⟨{ e with operators := [], values := ⟨type :: rest, code⟩ }, ?_⟩
  simp [finish, hoperands, hnext, isOpen, hclosed, emitOperators, hall, Expression.code]

section Turns

variable {n : Nat} {s : Session} {h : s.unread ≤ n} {token : Token} {location : Location}
  {tolerantAfter : Option Bool}

theorem run_scan (env : Environment) (e : Expression) (s : Session) (h : s.unread ≤ n) :
    (scan env n).run e s h =
      Reading.scanFrom env (fun _ => false) (fun m _ => feed env (scan env m)) e s h := by
  rw [scan]
  rfl

theorem run_scan_of_is_passed (hpass : (s.scanner.pull env.extensions).item.IsPassed)
    (hle : (s.pull env).2.unread ≤ n) :
    (scan env n).run e s h = (scan env n).run e (s.pull env).2 hle := by
  rw [run_scan, run_scan]
  exact Reading.scan_from_of_is_passed rfl hpass hle

/-- What the expression is offered when a token is pulled. -/
def offer (env : Environment) (token : Token) (location : Location) (e : Expression)
    (s : Session) : Result Expression Verdict :=
  (feed env (scan env (s.pull env).2.unread) token location).run e (s.pull env).2 (Nat.le_refl _)

theorem turn_eq_of_answer_offer
    (hpull : (s.scanner.pull env.extensions).item = .token token location tolerantAfter)
    (hend : token ≠ .endOfText) (hcomment : ∀ text, token ≠ .comment text) :
    Reading.turn env (fun _ => false) (fun m _ => feed env (scan env m)) e s h =
      .ofAnswer location tolerantAfter (offer env token location e s) := by
  have hitem : s.pull env = (.token token location tolerantAfter, (s.pull env).2) := by
    rw [← hpull]
    rfl
  have hne : (s.pull env).1 ≠ .ended := by
    rw [show (s.pull env).1 = _ from hpull]
    nofun
  have hlt := s.unread_pull_lt env hne
  exact Reading.turn_of_token hitem hend hcomment (Nat.lt_of_lt_of_le hlt h)

end Turns

/-- The expression ends in front of a sign, and is then as described. -/
def EndsBefore (env : Environment) (sign : Special) (e : Expression) (P : Expression → Prop) :
    Prop :=
  ∀ {n : Nat} (nested : Reading n Expression Unit) (location : Location) (s : Session)
    (h : s.unread ≤ n), ∃ e', (feed env nested (.special sign) location).run e s h =
      ⟨.ok (.handBack (.special sign)), e', s⟩ ∧ P e'

theorem Holds.ended (he : e.Holds role values operators next) (location : Location) :
    ({ e with first := false, location } : Expression).Holds role values operators next := by
  obtain ⟨hobject, rfl, rfl, rfl, hstarted, rfl⟩ := he
  exact ⟨hobject, rfl, rfl, rfl, fun h => ⟨(hstarted h).1, rfl⟩, rfl⟩

/-- The end of the line ends a plain expression. -/
theorem ends_before_newline {P : Expression → Prop} (hobject : e.object = "")
    (hP : ∀ location, P { e with first := false, location }) : EndsBefore env .newline e P := by
  intro n nested location s h
  refine ⟨{ e with first := false, location }, ?_, hP location⟩
  simp [feed, feedSpecial, hobject, place]

/-- A comma ends a plain expression of which something has been read. -/
theorem ends_before_comma {P : Expression → Prop} (he : e.Holds role values operators false)
    (hP : ∀ location, P { e with first := false, location }) : EndsBefore env .comma e P := by
  intro n nested location s h
  refine ⟨{ e with first := false, location }, ?_, hP location⟩
  simp [feed, feedSpecial, he.object, (he.started rfl).2]

/-- A scan reads all tokens that the expression takes, up to a sign that ends it. -/
theorem run_scan_of_ends_before {scanner final : Scanner}
    {delivered tokens : List (Token × Location)} {sign : Special} {place : Location}
    {reports : List Report} {e' : Expression} {P : Expression → Prop} {pool : Literals} {n : Nat}
    (hdelivers : scanner.Delivers env.extensions delivered reports final)
    (hdelivered : delivered = tokens ++ [(.special sign, place)])
    (he' : EndsBefore env sign e' P) :
    ∀ (s : Session) (h : s.unread ≤ n), s.scanner = scanner →
      TakesAll env s.locals tokens e s.literals e' pool →
      ∃ q, (scan env n).run e s h = ⟨.ok (), q,
          { s with
            scanner := final.putBack (.special sign) place
            log := reports.foldl Log.enter s.log
            literals := pool }⟩ ∧ P q := by
  -- By induction on what is delivered, along with the tokens that the expression takes.
  induction hdelivers generalizing tokens e with
  | nil => simp at hdelivered
  | @pass scanner final first rest reports hpass _ ih =>
      rintro s h rfl htakes
      have hle := Nat.le_trans (s.unread_pull_le env) h
      obtain ⟨q, hrun, hq⟩ := ih hdelivered (s.pull env).2 hle rfl htakes
      refine ⟨q, (run_scan_of_is_passed hpass hle).trans ?_, hq⟩
      rw [hrun, List.foldl_append]
      rfl
  | @take scanner final token location tolerantAfter rest reports hpull hend hcomment hrest ih =>
      rintro s h rfl htakes
      have hturn : Reading.turn env (fun _ => false) (fun m _ => feed env (scan env m)) e s h = _ :=
        turn_eq_of_answer_offer hpull hend hcomment
      cases htakes with
      | nil =>
          obtain ⟨⟨rfl, rfl⟩, rfl⟩ : (token = _ ∧ location = _) ∧ rest = _ := by
            simpa using hdelivered
          cases hrest
          obtain ⟨q, hfeed, hq⟩ := he' (scan env (s.pull env).2.unread) location
            (s.pull env).2 (Nat.le_refl _)
          refine ⟨q, ?_, hq⟩
          rw [offer, hfeed] at hturn
          rw [run_scan, Reading.scan_from_of_last hturn, Session.scanner_restore_names,
            List.append_nil]
          rfl
      | @cons token' location' tokens _ between _ _ pool' _ hfirst hothers =>
          obtain ⟨⟨rfl, rfl⟩, hrest'⟩ : (token = _ ∧ location = _) ∧ rest = _ := by
            simpa using hdelivered
          have hfeed := hfirst (scan env (s.pull env).2.unread) (s.pull env).2 (Nat.le_refl _)
            rfl rfl
          rw [offer, hfeed, Reading.Turn.of_answer_more] at hturn
          have hle := Nat.le_trans (Nat.le_of_lt (Reading.unread_lt_of_turn hturn)) h
          obtain ⟨q, hrun, hq⟩ := ih hrest' _ hle rfl hothers
          refine ⟨q, ?_, hq⟩
          rw [run_scan, Reading.scan_from_of_again hturn hle, ← run_scan, hrun, List.foldl_append]
          rfl

/-- A scan reads all tokens that the expression takes, up to the end of the line. -/
theorem run_scan_of_takes_all {scanner final : Scanner} {delivered tokens : List (Token × Location)}
    {place : Location} {reports : List Report} {e' : Expression} {pool : Literals} {n : Nat}
    (hdelivers : scanner.Delivers env.extensions delivered reports final)
    (hdelivered : delivered = tokens ++ [(.special .newline, place)])
    (he' : e'.Holds role values operators next) :
    ∀ (s : Session) (h : s.unread ≤ n), s.scanner = scanner →
      TakesAll env s.locals tokens e s.literals e' pool →
      ∃ q, (scan env n).run e s h = ⟨.ok (), q,
          { s with
            scanner := final.putBack (.special .newline) place
            log := reports.foldl Log.enter s.log
            literals := pool }⟩ ∧ q.Holds role values operators next :=
  run_scan_of_ends_before hdelivers hdelivered (ends_before_newline he'.object he'.ended)

/-- If a scan comes to the end of the line and the expression is complete, then what it has read
is an expression of the grammar. -/
theorem forms_of_run_scan {scanner final : Scanner} {delivered tokens : List (Token × Location)}
    {place : Location} {reports : List Report} {locals : Locals} {n : Nat} {before : List Token}
    (hdelivers : scanner.Delivers env.extensions delivered reports final)
    (hdelivered : delivered = tokens ++ [(.special .newline, place)])
    (hsymbols : ∀ t ∈ tokens, Symbol env locals t.1)
    (he : e.Holds {} values operators next)
    (hawaits : Awaits env locals (operators.count .opening) next before) :
    ∀ (s : Session) (h : s.unread ≤ n), s.scanner = scanner → s.locals = locals →
      ((scan env n).run e s h).outcome = .ok () →
      ((scan env n).run e s h).session.scanner.pending = some (.special .newline, place) →
      ((scan env n).run e s h).reader.FinishesQuietly →
      Forms env locals .expression (before ++ tokens.map Prod.fst) := by
  -- By induction on what is delivered. What the tokens so far still lack is in `hawaits`.
  induction hdelivers generalizing tokens e values operators next before with
  | nil => simp at hdelivered
  | @pass scanner final first rest reports hpass _ ih =>
      rintro s h rfl rfl hok hpending hquiet
      have hle := Nat.le_trans (s.unread_pull_le env) h
      have hrun : (scan env n).run e s h = (scan env n).run e (s.pull env).2 hle :=
        run_scan_of_is_passed hpass hle
      rw [hrun] at hok hpending hquiet
      exact ih hdelivered hsymbols he hawaits (s.pull env).2 hle rfl rfl hok hpending hquiet
  | @take scanner final token location tolerantAfter rest reports hpull hend hcomment hrest ih =>
      rintro s h rfl rfl hok hpending hquiet
      have hturn : Reading.turn env (fun _ => false) (fun m _ => feed env (scan env m)) e s h = _ :=
        turn_eq_of_answer_offer hpull hend hcomment
      cases tokens with
      | nil =>
          obtain ⟨⟨rfl, rfl⟩, rfl⟩ : (token = _ ∧ location = _) ∧ rest = _ := by
            simpa using hdelivered
          have hends : EndsBefore env .newline e (·.Holds {} values operators next) :=
            ends_before_newline he.object he.ended
          obtain ⟨q, hfeed, hq⟩ := hends (scan env (s.pull env).2.unread) location
            (s.pull env).2 (Nat.le_refl _)
          rw [offer, hfeed] at hturn
          rw [run_scan, Reading.scan_from_of_last hturn] at hquiet
          obtain ⟨rfl, hclosed⟩ := hquiet.complete hq
          rw [List.count_eq_zero_of_not_mem hclosed] at hawaits
          simpa [Awaits, Unfinished] using hawaits
      | cons first tokens =>
          obtain ⟨rfl, hrest'⟩ : (token, location) = first ∧ rest = _ := by
            simpa using hdelivered
          have hsymbol := hsymbols (token, location) (by simp)
          obtain ⟨e', pool', values', operators', next', htakes, he', hmoves⟩ | hdeclines :=
            he.steps hsymbol location s.literals
          · have hfeed := htakes (scan env (s.pull env).2.unread) (s.pull env).2 (Nat.le_refl _)
              rfl rfl
            rw [offer, hfeed, Reading.Turn.of_answer_more] at hturn
            have hle := Nat.le_trans (Nat.le_of_lt (Reading.unread_lt_of_turn hturn)) h
            rw [run_scan, Reading.scan_from_of_again hturn hle, ← run_scan] at hok hpending hquiet
            have hforms := ih hrest' (fun t ht => hsymbols t (by simp [ht])) he'
              (hawaits.move hmoves) _ hle rfl rfl hok hpending hquiet
            simpa using hforms
          -- If the token is declined, the scan does not come to the end of the line.
          · obtain hback | ⟨reason, herror⟩ :=
              hdeclines (scan env (s.pull env).2.unread) (s.pull env).2 (Nat.le_refl _)
            · rw [Reading.Turn.ofAnswer, offer, hback] at hturn
              rw [run_scan, Reading.scan_from_of_last hturn] at hpending
              cases hpending
              cases hsymbol
            · rw [Reading.Turn.ofAnswer, offer, herror] at hturn
              rw [run_scan, Reading.scan_from_of_last hturn] at hok
              cases hok

end Scan

theorem holds_default : ({} : Expression).Holds {} {} [] true :=
  ⟨rfl, rfl, rfl, rfl, nofun, rfl⟩

/-- An environment with one global variable. -/
def nestedEnvironment : Environment := { globals := [("y", .float)] }

/-- A session in front of an expression with nested operators, on a local and a global variable. -/
def nestedSession : Session :=
  { scanner := .ofText "2-(x<-y)*4\n", locals := { shorts := ["x"] } }

/-- The tokens of the expression. -/
def nestedTokens : List Token :=
  [.int 2, .special .minus, .special .opening, .name "x", .special (.comparison .less),
    .special .minus, .name "y", .special .closing, .special .times, .int 4]

theorem nested_derives :
    ∃ formula, Derives nestedEnvironment nestedSession.locals .expression nestedTokens formula := by
  have hatom : ∀ token operand,
      Operand.ofToken? nestedEnvironment nestedSession.locals token = some operand →
      Derives nestedEnvironment nestedSession.locals .unit [token] (.atom operand) :=
    fun _ _ h => .atom h
  have hy : Derives nestedEnvironment nestedSession.locals .sum [.special .minus, .name "y"] _ :=
    .single rfl (.single rfl (.minus (.atom rfl)))
  have hless : Level.expression.operation? (.comparison .less) = some _ := rfl
  have htimes : Level.product.operation? .times = some _ := rfl
  have hminus : Level.sum.operation? .minus = some _ := rfl
  have htwo := hatom (.int 2) _ rfl
  have hx := hatom (.name "x") _ rfl
  have hgroup := Derives.group (.binary rfl hless (.single rfl (.single rfl (.single rfl hx))) hy)
  have hproduct := Derives.binary rfl htimes (.single rfl hgroup) (hatom (.int 4) _ rfl)
  exact ⟨_, .single rfl (.binary rfl hminus (.single rfl (.single rfl htwo)) hproduct)⟩

set_option maxRecDepth 10000 in
theorem nested_delivers : ∃ tokens place reports final,
    nestedSession.scanner.Delivers nestedEnvironment.extensions
      (tokens ++ [(.special .newline, place)]) reports final ∧
    tokens.map Prod.fst = nestedTokens := by
  refine ⟨[_, _, _, _, _, _, _, _, _, _], _, _, _,
    .take rfl nofun nofun <| .take rfl nofun nofun <| .take rfl nofun nofun <|
    .take rfl nofun nofun <| .take rfl nofun nofun <| .take rfl nofun nofun <|
    .take rfl nofun nofun <| .take rfl nofun nofun <| .take rfl nofun nofun <|
    .take rfl nofun nofun <| .take rfl nofun nofun <| .nil _, ?_⟩
  rfl

end Expression

end QuestScript
