import QuestScript.Expression.Basic
import QuestScript.Proofs.Flow
import QuestScript.Proofs.Registry

/-!
# The local variables that code accesses

Compiled code finds a local variable by its type and its number. `AccessesOnly` says which ones a
piece of code may access: every operation on a local variable belongs to a fetch or a store of one
of them. The operations of a host whose registry has been built are no such operations.

The rest of this module goes through the assembler: whatever is assembled accesses no more local
variables than its parts do.
-/

namespace QuestScript

/-- The operation fetches or stores a local variable. -/
def Opcode.isLocalAccess : Opcode → Bool
  | .fetchLocalShort | .fetchLocalLong | .fetchLocalFloat | .storeLocalShort | .storeLocalLong
  | .storeLocalFloat => true
  | _ => false

/-- The word is an operation on a local variable. -/
def Word.isLocalAccess (word : Word) : Bool :=
  match Instruction.decode? word with
  | some (.segment5 code) => (Opcode.ofCode? code).any Opcode.isLocalAccess
  | _ => false

/-- The code accesses a local variable only if its type and number are allowed. -/
inductive AccessesOnly (allowed : ValueType → Nat → Prop) : Code → Prop where
  | nil : AccessesOnly allowed []
  | word {word : Word} {rest : Code} (hword : Word.isLocalAccess word = false)
      (h : AccessesOnly allowed rest) : AccessesOnly allowed (word :: rest)
  | fetch {type : ValueType} {index : Nat} {rest : Code} (hallowed : allowed type index)
      (h : AccessesOnly allowed rest) :
      AccessesOnly allowed (Assembly.fetchLocal type index ++ rest)
  | store {type valueType : ValueType} {index : Nat} {value rest : Code}
      (hallowed : allowed type index) (hvalue : AccessesOnly allowed value)
      (h : AccessesOnly allowed rest) :
      AccessesOnly allowed (Assembly.assignToLocal type index value valueType ++ rest)

/-- No word of the code is an operation on a local variable. -/
def Plain (code : Code) : Prop :=
  ∀ word ∈ code, Word.isLocalAccess word = false

variable {allowed : ValueType → Nat → Prop} {code rest : Code}

namespace AccessesOnly

theorem of_plain (h : Plain code) : AccessesOnly allowed code := by
  induction code with
  | nil => exact .nil
  | cons word rest ih =>
      exact .word (h word List.mem_cons_self) (ih fun w hw => h w (List.mem_cons_of_mem _ hw))

theorem append (hcode : AccessesOnly allowed code) (hrest : AccessesOnly allowed rest) :
    AccessesOnly allowed (code ++ rest) := by
  induction hcode with
  | nil => exact hrest
  | word hword _ ih => exact .word hword ih
  | fetch hallowed _ ih =>
      rw [List.append_assoc]
      exact .fetch hallowed ih
  | store hallowed hvalue _ _ ih =>
      rw [List.append_assoc]
      exact .store hallowed hvalue ih

theorem mono {allowed' : ValueType → Nat → Prop} (h : AccessesOnly allowed code)
    (himp : ∀ type index, allowed type index → allowed' type index) :
    AccessesOnly allowed' code := by
  induction h with
  | nil => exact .nil
  | word hword _ ih => exact .word hword ih
  | fetch hallowed _ ih => exact .fetch (himp _ _ hallowed) ih
  | store hallowed _ _ ihvalue ih => exact .store (himp _ _ hallowed) ihvalue ih

theorem flatten {parts : List Code} (h : ∀ part ∈ parts, AccessesOnly allowed part) :
    AccessesOnly allowed parts.flatten := by
  induction parts with
  | nil => exact .nil
  | cons part parts ih =>
      exact (h part List.mem_cons_self).append (ih fun p hp => h p (List.mem_cons_of_mem _ hp))

theorem of_fetch {type : ValueType} {index : Nat} (h : allowed type index) :
    AccessesOnly allowed (Assembly.fetchLocal type index) := by
  rw [← List.append_nil (Assembly.fetchLocal type index)]
  exact .fetch h .nil

theorem of_store {type valueType : ValueType} {index : Nat} {value : Code}
    (h : allowed type index) (hvalue : AccessesOnly allowed value) :
    AccessesOnly allowed (Assembly.assignToLocal type index value valueType) := by
  rw [← List.append_nil (Assembly.assignToLocal type index value valueType)]
  exact .store h hvalue .nil

end AccessesOnly

/-! ### Words -/

@[simp] theorem Word.is_local_access_op (opcode : Opcode) :
    Word.isLocalAccess (Assembly.op opcode) = opcode.isLocalAccess := by
  simp [isLocalAccess, Assembly.decode_op, Opcode.of_code?_code]

theorem Word.is_local_access_segment0 {op a : UInt32} (hop : op.toNat < 2 ^ 6) :
    Word.isLocalAccess (Instruction.segment0 op a).encode = false := by
  have hdecode := Instruction.decode_encode
    (Instruction.fits_reduced (i := .segment0 op a) hop)
  rw [Instruction.encode_reduced] at hdecode
  rw [isLocalAccess, hdecode]
  rfl

theorem Word.is_local_access_segment3 {op a : UInt32} (hop : op.toNat < 2 ^ 18) :
    Word.isLocalAccess (Instruction.segment3 op a).encode = false := by
  have hdecode := Instruction.decode_encode
    (Instruction.fits_reduced (i := .segment3 op a) hop)
  rw [Instruction.encode_reduced] at hdecode
  rw [isLocalAccess, hdecode]
  rfl

@[simp] theorem Word.is_local_access_push (index : Nat) :
    Word.isLocalAccess (Assembly.push index) = false :=
  Word.is_local_access_segment0 (by decide)

@[simp] theorem plain_nil : Plain [] := nofun

@[simp] theorem plain_cons {word : Word} :
    Plain (word :: rest) ↔ Word.isLocalAccess word = false ∧ Plain rest :=
  List.forall_mem_cons

@[simp] theorem plain_append : Plain (code ++ rest) ↔ Plain code ∧ Plain rest :=
  List.forall_mem_append

/-! ### The assembler -/

namespace Assembly

@[simp] theorem plain_convert (source target : ValueType) : Plain (convert source target) := by
  unfold convert
  split <;> simp [Opcode.isLocalAccess]

theorem plain_negate (type : ValueType) : Plain (negate type) := by
  unfold negate
  split <;> simp [Opcode.isLocalAccess]

theorem plain_binary {left right : ValueType} {intOp floatOp : Opcode}
    (hint : intOp.isLocalAccess = false) (hfloat : floatOp.isLocalAccess = false) :
    Plain (binary left right intOp floatOp) := by
  have hfirst : Opcode.intToFloat1.isLocalAccess = false := rfl
  have hsecond : Opcode.intToFloat.isLocalAccess = false := rfl
  cases left <;> cases right <;>
    simp [binary, ValueType.isFloat, hint, hfloat, hfirst, hsecond]

theorem plain_compare (kind : Comparison) (left right : ValueType) :
    Plain (compare kind left right) := by
  cases kind <;> exact plain_binary rfl rfl

theorem plain_push_int (value : Int32) (pool : Literals) : Plain (pushInt value pool).1 := by
  simp [pushInt, Opcode.isLocalAccess]

theorem plain_push_float (value : Binary32) (pool : Literals) : Plain (pushFloat value pool).1 := by
  simp [pushFloat, Opcode.isLocalAccess]

@[simp] theorem plain_push_string (value : String) (pool : Literals) :
    Plain (pushString value pool).1 := by
  simp [pushString]

theorem plain_fetch_global (type : ValueType) (name : String) (pool : Literals) :
    Plain (fetchGlobal type name pool).1 := by
  cases type <;> simp [fetchGlobal, byType, Opcode.isLocalAccess]

theorem plain_fetch_member (type : ValueType) (name id : String) (global : Bool)
    (pool : Literals) : Plain (fetchMember type name id global pool).1 := by
  cases type <;> cases global <;>
    simp [fetchMember, pushMember, byType, Opcode.isLocalAccess]

theorem plain_report (format : String) (pool : Literals) : Plain (report format pool).1 := by
  simp [report, Opcode.isLocalAccess]

theorem plain_with_reference {id : String} {plain explicit : Opcode} {pool : Literals}
    (hplain : plain.isLocalAccess = false) (hexplicit : explicit.isLocalAccess = false) :
    Plain (withReference id plain explicit pool).1 := by
  unfold withReference
  split <;> simp [hplain, hexplicit]

theorem plain_message (text : String) (buttons : Nat) (pool : Literals) :
    Plain (message text buttons pool).1.code := by
  unfold message
  split
  · exact plain_nil
  · simpa using Word.is_local_access_segment3 (by decide)

theorem plain_jump (offset : Int) : Plain (jump offset).code := by
  unfold jump
  split
  · exact plain_nil
  · dsimp only
    split
    all_goals simpa using Word.is_local_access_segment0 (by decide)

theorem plain_jump_on_zero (offset : Int) : Plain (jumpOnZero offset).code := by
  simp [jumpOnZero, plain_jump, Opcode.isLocalAccess]

theorem assign_to_global_accesses_only {value : Code} (hvalue : AccessesOnly allowed value)
    (type valueType : ValueType) (name : String) (pool : Literals) :
    AccessesOnly allowed (assignToGlobal type name value valueType pool).1 := by
  refine .append (.append (.append (.of_plain (plain_push_string name pool)) hvalue)
    (.of_plain (plain_convert _ _))) (.of_plain ?_)
  cases type <;> simp [byType, Opcode.isLocalAccess]

theorem assign_to_member_accesses_only {value : Code} (hvalue : AccessesOnly allowed value)
    (type valueType : ValueType) (name id : String) (global : Bool) (pool : Literals) :
    AccessesOnly allowed (assignToMember type name id value valueType global pool).1 := by
  refine .append (.append (.append (.of_plain ?_) hvalue) (.of_plain (plain_convert _ _)))
    (.of_plain ?_)
  · simp
  · cases type <;> cases global <;> simp [byType, Opcode.isLocalAccess]

end Assembly

/-! ### Calls of the host -/

/-- An operation number of the host's own part spells no operation on a local variable. -/
theorem Extension.plain_call_word {extension : Extension} {opcode : UInt32}
    (h : extension.format.admits opcode = true) (optionals : Nat) :
    Plain (extension.callWord opcode optionals).code := by
  have hencodes := CallFormat.encodes_of_admits h
  unfold callWord
  split
  next hformat =>
      rw [hformat] at hencodes
      split
      · exact plain_nil
      next hoptionals =>
          have hfits : (UInt32.ofNat optionals).toNat < 256 := by
            rw [UInt32.toNat_ofNat']
            omega
          simp [Word.isLocalAccess, hencodes.2 _ hfits]
  next hformat =>
      rw [hformat] at hencodes
      simp [Word.isLocalAccess, hencodes.1, hencodes.2]

/-- The code of a call accesses no local variable. -/
theorem Registry.Built.plain_call {registry : Registry} {code : Int} {extension : Extension}
    (hbuilt : registry.Built)
    (h : registry.function? code = some extension ∨ registry.instruction? code = some extension)
    (id : String) (optionals : Nat) (pool : Literals) :
    Plain (extension.call id optionals pool).1.code := by
  obtain ⟨keyword, hentry⟩ : ∃ keyword, registry.Has keyword extension := by
    obtain hfunction | hinstruction := h
    · exact (hbuilt.function hfunction).2
    · exact (hbuilt.instruction hinstruction).2
  obtain ⟨-, hadmits⟩ := hbuilt.admits hentry
  unfold Extension.call
  split
  · exact plain_nil
  split
  · exact Extension.plain_call_word (hadmits _ List.mem_cons_self) optionals
  split
  · exact plain_nil
  next opcode hopcode =>
      have hopcode := hadmits opcode (by simp [hopcode])
      exact plain_append.2 ⟨Assembly.plain_push_int _ _,
        Extension.plain_call_word hopcode optionals⟩

theorem Fragment.code_of_to_except {fragment : Fragment} (h : fragment.toExcept = .ok code) :
    fragment.code = code := by
  unfold toExcept at h
  split at h
  · exact Except.ok.inj h
  · cases h

namespace Operator

/-- An operator adds code without local variables. -/
theorem apply_accesses_only {operator : Operator} {values values' : Emitted}
    (hvalues : AccessesOnly allowed values.code) (h : operator.apply values = .ok values') :
    AccessesOnly allowed values'.code := by
  unfold apply at h
  cases operator with
  | opening => cases h
  | negate =>
      dsimp only at h
      split at h
      · cases h
        exact hvalues.append (.of_plain (Assembly.plain_negate _))
      · cases h
  | compare kind =>
      dsimp only at h
      split at h
      · cases h
        exact hvalues.append (.of_plain (Assembly.plain_compare _ _ _))
      · cases h
  | add | sub | mul | div =>
      dsimp only at h
      split at h
      · cases h
        exact hvalues.append (.of_plain (Assembly.plain_binary rfl rfl))
      · cases h

theorem emit_while_accesses_only {test : Option Operator → Bool} {operators : List Operator}
    {values : Emitted} {left : List Operator × Emitted}
    (hvalues : AccessesOnly allowed values.code)
    (h : emitWhile test operators values = .ok left) : AccessesOnly allowed left.2.code := by
  induction operators generalizing values with
  | nil =>
      rw [emitWhile] at h
      split at h <;> cases h
      exact hvalues
  | cons operator operators ih =>
      rw [emitWhile] at h
      split at h
      · obtain ⟨applied, happlied, h⟩ := except_bind_eq_ok.1 h
        exact ih (apply_accesses_only hvalues happlied) h
      · cases h
        exact hvalues

end Operator

/-! ### Control flow -/

namespace ControlFlow

theorem guarded_accesses_only {condition : Option Code} {body : Code}
    (hcondition : ∀ c ∈ condition, AccessesOnly allowed c) (hbody : AccessesOnly allowed body)
    (h : guarded condition body = .ok code) : AccessesOnly allowed code := by
  cases condition with
  | none =>
      cases h
      exact hbody
  | some c =>
      obtain ⟨guard, hguard, h⟩ := except_bind_eq_ok.1 h
      cases h
      have hplain := Assembly.plain_jump_on_zero (body.length + 1)
      rw [Fragment.code_of_to_except hguard] at hplain
      exact ((hcondition c rfl).append (.of_plain hplain)).append hbody

theorem conditional_accesses_only {arms : List Arm}
    (harms : ∀ arm ∈ arms, (∀ c ∈ arm.condition, AccessesOnly allowed c) ∧
      AccessesOnly allowed arm.body)
    (h : conditional arms = .ok code) : AccessesOnly allowed code := by
  induction arms generalizing code with
  | nil =>
      cases h
      exact .nil
  | cons arm rest ih =>
      obtain ⟨hcondition, hbody⟩ := harms arm List.mem_cons_self
      cases rest with
      | nil => exact guarded_accesses_only hcondition hbody h
      | cons next rest =>
          obtain ⟨tail, htail, h⟩ := except_bind_eq_ok.1 h
          obtain ⟨leave, hleave, h⟩ := except_bind_eq_ok.1 h
          obtain ⟨first, hfirst, h⟩ := except_bind_eq_ok.1 h
          cases h
          have hplain := Assembly.plain_jump (tail.length + 1)
          rw [Fragment.code_of_to_except hleave] at hplain
          exact (guarded_accesses_only hcondition (hbody.append (.of_plain hplain)) hfirst).append
            (ih (fun a ha => harms a (List.mem_cons_of_mem _ ha)) htail)

theorem loop_accesses_only {condition body : Code} (hcondition : AccessesOnly allowed condition)
    (hbody : AccessesOnly allowed body) (h : loop condition body = .ok code) :
    AccessesOnly allowed code := by
  unfold loop at h
  split at h
  · cases h
    exact .nil
  · obtain ⟨probe, -, h⟩ := except_bind_eq_ok.1 h
    obtain ⟨guard, hguard, h⟩ := except_bind_eq_ok.1 h
    obtain ⟨back, hback, h⟩ := except_bind_eq_ok.1 h
    have hguard' := Assembly.plain_jump_on_zero (body.length + probe.length + 1)
    have hback' := Assembly.plain_jump (-(body.length + condition.length + guard.length))
    rw [Fragment.code_of_to_except hguard] at hguard'
    rw [Fragment.code_of_to_except hback] at hback'
    split at h
    · cases h
      exact ((hcondition.append (.of_plain hguard')).append hbody).append (.of_plain hback')
    · cases h

end ControlFlow

end QuestScript
