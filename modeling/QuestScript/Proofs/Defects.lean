import QuestScript.Proofs.Flow
import QuestScript.Proofs.Outcomes
import QuestScript.Proofs.Statements

/-!
# Defects

A defect is a situation that no script should bring about. This module is about the steps that can
meet one. The operators of an expression find their operands, because there is always one operand
more than operators for two operands wait (`Expression.Balanced`), and a call can be expressed if
the host observes what it has to (`Registry.Regular`).
-/

namespace QuestScript

/-! ### Operators -/

namespace Operator

/-- An operator finds its operands if there are more than operators for two operands. -/
theorem exists_apply_eq {operator : Operator} (values : Emitted) (hopening : operator ≠ .opening)
    (hoperands : binaries [operator] < values.operands.length) :
    ∃ values', operator.apply values = .ok values' ∧
      values'.operands.length + binaries [operator] = values.operands.length := by
  rcases values with ⟨_ | ⟨right, _ | ⟨left, rest⟩⟩, code⟩
  · exact absurd hoperands (Nat.not_lt_zero _)
  · cases operator with
    | opening => exact absurd rfl hopening
    | negate => exact ⟨_, rfl, rfl⟩
    | compare | add | sub | mul | div => exact absurd hoperands (Nat.lt_irrefl _)
  · cases operator with
    | opening => exact absurd rfl hopening
    | negate | compare | add | sub | mul | div => exact ⟨_, rfl, rfl⟩

/-- Operators that come out find their operands, as long as no parenthesis is among them. They do
not run out if the test fails where there is none, or at a parenthesis that is there. -/
theorem exists_emit_while_eq {test : Option Operator → Bool} {operators : List Operator}
    (values : Emitted) (hnone : test none = false ∨ .opening ∈ operators)
    (hopening : .opening ∈ operators → test (some .opening) = false)
    (hoperands : binaries operators < values.operands.length) :
    ∃ operators' values', emitWhile test operators values = .ok (operators', values') ∧
      values'.operands.length + binaries operators =
        values.operands.length + binaries operators' ∧
      test operators'.head? = false := by
  induction operators generalizing values with
  | nil =>
      obtain hnone | hmem := hnone
      · exact ⟨[], values, by simp [emitWhile, hnone], rfl, hnone⟩
      · cases hmem
  | cons operator rest ih =>
      have hcons : binaries (operator :: rest) = binaries rest + binaries [operator] := by
        simp only [binaries, List.countP_cons, List.countP_nil]
        omega
      cases htest : test (some operator) with
      | false => exact ⟨operator :: rest, values, by simp [emitWhile, htest], rfl, htest⟩
      | true =>
          have hne : operator ≠ .opening := by
            rintro rfl
            rw [hopening List.mem_cons_self] at htest
            cases htest
          have hnone' : test none = false ∨ .opening ∈ rest :=
            hnone.imp id fun hmem => (List.mem_cons.1 hmem).resolve_left (Ne.symm hne)
          obtain ⟨between, happly, hbetween⟩ := exists_apply_eq values hne (by omega)
          obtain ⟨operators', values', hemit, hcount, hstop⟩ := ih between hnone'
            (fun hmem => hopening (List.mem_cons_of_mem _ hmem)) (by omega)
          refine ⟨operators', values', ?_, by omega, hstop⟩
          simp only [emitWhile, htest, if_true, happly]
          exact hemit

end Operator

/-! ### Expressions -/

namespace Expression

variable {e e' : Expression}

/-- There is one operand more, counting the one that may have to follow, than operators for two
operands wait. Behind an object an operand has to follow. -/
structure Balanced (e : Expression) : Prop where
  balance : e.values.operands.length + (if e.nextOperand then 1 else 0) =
    Operator.binaries e.operators + 1
  object : e.object ≠ "" → e.nextOperand = true

/-- An expression of which nothing has been read. -/
theorem balanced_of_fresh (hvalues : e.values = {}) (hoperators : e.operators = [])
    (hnext : e.nextOperand = true) : e.Balanced where
  balance := by
    rw [hvalues, hoperators, hnext]
    rfl
  object _ := hnext

namespace Balanced

/-- What is not about operands, operators and objects does not matter. -/
theorem of_eq (he : e.Balanced) (hoperands : e'.values.operands = e.values.operands)
    (hoperators : e'.operators = e.operators) (hnext : e'.nextOperand = e.nextOperand)
    (hobject : e'.object = e.object ∨ e'.object = "") : e'.Balanced where
  balance := by
    rw [hoperands, hoperators, hnext]
    exact he.balance
  object h := by
    obtain hobject | hobject := hobject
    · rw [hnext]
      exact he.object (hobject ▸ h)
    · exact absurd hobject h

/-- An operand where one has to follow. -/
theorem push {type : ValueType} (he : e.Balanced) (hnext : e.nextOperand = true)
    (hoperands : e'.values.operands = type :: e.values.operands)
    (hoperators : e'.operators = e.operators) (hnext' : e'.nextOperand = false)
    (hobject : e'.object = "") : e'.Balanced where
  balance := by
    have hbalance := he.balance
    rw [hnext, if_pos rfl] at hbalance
    rw [hoperands, hoperators, hnext', List.length_cons, if_neg Bool.false_ne_true]
    exact hbalance
  object h := absurd hobject h

/-- An operator that takes one operand, or a parenthesis, in front of an operand. -/
theorem push_operator {operator : Operator} (he : e.Balanced)
    (hoperator : operator.isBinary = false) : (e.pushOperator operator).Balanced where
  balance := by
    rw [Expression.pushOperator, Operator.binaries, List.countP_cons_of_neg (by simp [hoperator])]
    exact he.balance
  object := he.object

/-- Behind an operand, operators can come out up to a parenthesis. -/
theorem exists_emit_operators_eq (he : e.Balanced) (test : Option Operator → Bool)
    (hnext : e.nextOperand = false) (hnone : test none = false ∨ .opening ∈ e.operators)
    (hopening : .opening ∈ e.operators → test (some .opening) = false) :
    ∃ e', e.emitOperators test = .ok e' ∧ e'.Balanced ∧ e'.nextOperand = false ∧
      test e'.operators.head? = false := by
  have hbalance := he.balance
  rw [hnext, if_neg Bool.false_ne_true] at hbalance
  obtain ⟨operators, values, hemit, hcount, hstop⟩ :=
    Operator.exists_emit_while_eq e.values hnone hopening (by omega)
  refine ⟨{ e with operators, values }, ?_, ⟨?_, he.object⟩, hnext, hstop⟩
  · rw [emitOperators, hemit]
    rfl
  · dsimp only
    rw [hnext, if_neg Bool.false_ne_true]
    omega

/-- An operator between two operands. -/
theorem exists_push_binary_eq {operator : Operator} (he : e.Balanced)
    (hnext : e.nextOperand = false) (hoperator : operator.isBinary = true) :
    ∃ e', e.pushBinary operator = .ok e' ∧ e'.Balanced := by
  have hopening : decide (operator.priority ≤ Operator.opening.priority) = false := by
    cases operator <;> first | rfl | cases hoperator
  obtain ⟨between, hemit, hbetween, hnext', -⟩ := he.exists_emit_operators_eq
    (·.any fun top : Operator => decide (operator.priority ≤ top.priority)) hnext (Or.inl rfl)
    fun _ => hopening
  refine ⟨{ between.pushOperator operator with nextOperand := true }, ?_, ?_, fun _ => rfl⟩
  · rw [pushBinary, hemit]
    rfl
  · have hbalance := hbetween.balance
    rw [hnext', if_neg Bool.false_ne_true] at hbalance
    show between.values.operands.length + 1 =
      Operator.binaries (operator :: between.operators) + 1
    rw [Operator.binaries, List.countP_cons_of_pos hoperator]
    exact congrArg (· + 1) hbalance

/-- A closing parenthesis behind an operand finds the one that is open. -/
theorem exists_close_eq (he : e.Balanced) (hnext : e.nextOperand = false)
    (hopen : e.isOpen = true) : ∃ e', e.close = .ok e' ∧ e'.Balanced := by
  obtain ⟨between, hemit, hbetween, -, hstop⟩ := he.exists_emit_operators_eq
    (fun top => top != some .opening) hnext (Or.inr (List.contains_iff_mem.1 hopen)) fun _ => rfl
  have hhead : between.operators.head? = some .opening := by simpa using hstop
  obtain ⟨rest, hoperators⟩ := List.head?_eq_some_iff.1 hhead
  refine ⟨{ between with operators := between.operators.drop 1 }, ?_, ?_, hbetween.object⟩
  · rw [close, hemit]
    rfl
  · have hbalance := hbetween.balance
    dsimp only
    rw [hoperators] at hbalance ⊢
    exact hbalance

/-- To end an expression, all operators that wait come out, and an operand is left. -/
theorem exists_finish_eq (he : e.Balanced) (hnext : e.nextOperand = false)
    (hopen : ¬e.isOpen = true) :
    ∃ e' type rest, e.emitOperators Option.isSome = .ok e' ∧ e'.values.operands = type :: rest := by
  obtain ⟨e', hemit, he', hnext', -⟩ := he.exists_emit_operators_eq Option.isSome hnext
    (Or.inl rfl) fun hmem => absurd (List.contains_iff_mem.2 hmem) hopen
  have hbalance := he'.balance
  rw [hnext', if_neg Bool.false_ne_true] at hbalance
  obtain ⟨type, rest, hoperands⟩ :=
    List.exists_cons_of_length_pos (l := e'.values.operands) (by omega)
  exact ⟨e', type, rest, hemit, hoperands⟩

end Balanced

end Expression

/-! ### Calls -/

namespace Signature

/-- The letters that have a meaning. -/
def letters : List Char :=
  ['S', 'c', 'x', 'X', 'z', 'j', 's', 'l', 'f', '/']

/-- What stands behind the first stroke. -/
def behindStroke (signature : List Char) : List Char :=
  (signature.dropWhile (· != '/')).drop 1

theorem behind_stroke_cons_of_ne {letter : Char} (h : letter ≠ '/') (rest : List Char) :
    behindStroke (letter :: rest) = behindStroke rest := by
  rw [behindStroke, List.dropWhile_cons_of_pos (by simpa using h)]
  rfl

theorem behind_stroke_eq_nil {signature : List Char} (h : '/' ∉ signature) :
    behindStroke signature = [] := by
  have hnone : signature.dropWhile (· != '/') = [] := by
    refine List.dropWhile_eq_nil_iff.2 fun letter hletter => ?_
    rw [bne_iff_ne]
    rintro rfl
    exact h hletter
  rw [behindStroke, hnone]
  rfl

end Signature

/-- What the host has to observe: signatures have only letters with a meaning, at most 255 of them
behind the first stroke, and the format of an entry is that of its signature. -/
structure Extension.Regular (extension : Extension) : Prop where
  letters : ∀ letter ∈ extension.arguments.toList, letter ∈ Signature.letters
  optional : (Signature.behindStroke extension.arguments.toList).length ≤ 255
  format : extension.format = .ofSignature extension.arguments

/-- The host observes this for all its functions and instructions. -/
def Registry.Regular (registry : Registry) : Prop :=
  ∀ code extension, registry.function? code = some extension ∨
    registry.instruction? code = some extension → extension.Regular

/-- A call is complete if its optional arguments fit their field and an object stands only in front
of entries that take one. -/
theorem Extension.to_except_call {extension : Extension} {id : String} {optionals : Nat}
    (hregular : extension.Regular)
    (hle : optionals ≤ (Signature.behindStroke extension.arguments.toList).length)
    (hid : id ≠ "" → extension.hasExplicit = true) (pool : Literals) :
    (extension.call id optionals pool).1.toExcept =
      .ok (extension.call id optionals pool).1.code := by
  have hword : ∀ opcode, (extension.callWord opcode optionals).defect = none := by
    intro opcode
    have hoptional := hregular.optional
    unfold callWord
    split
    · rw [if_neg (by omega)]
    · rfl
  have hthree : ¬(optionals ≠ 0 ∧ extension.format ≠ .three) := by
    rintro ⟨hne, hfive⟩
    have hstroke : '/' ∉ extension.arguments.toList := by
      intro hmem
      rw [hregular.format, CallFormat.ofSignature, if_pos (List.elem_eq_true_of_mem hmem)] at hfive
      exact hfive rfl
    rw [Signature.behind_stroke_eq_nil hstroke] at hle
    exact hne (Nat.eq_zero_of_le_zero hle)
  rw [call, if_neg hthree]
  split
  · simp only [Fragment.toExcept, hword]
  next hempty =>
    obtain ⟨opcode, hopcode⟩ := Option.isSome_iff_exists.1 (hid (by simpa using hempty))
    simp only [hopcode, Fragment.toExcept, hword]

end QuestScript
