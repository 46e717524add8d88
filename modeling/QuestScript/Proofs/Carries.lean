import Mathlib.Data.List.Forall2
import QuestScript.Proofs.Shape

/-!
# What constructs do to the stack

Code carries a stack with values of some kinds on top to one with values of other kinds. The
constructs of the assembler are described in this way, each of them once. Constructs that make
literals are right as long as the literals end up among those that the code is run with.

The main statements are `Carries.append` and `Carries.frame`, by which constructs are put together,
and `Extension.call_carries`, which says what the code of a call takes and leaves.
-/

namespace QuestScript

/-- The literals are there, and no index is too large for its field. -/
structure Surroundings.Addressable (c : Surroundings) : Prop where
  integers : c.literals.integers.length < 2 ^ 24
  floats : c.literals.floats.length < 2 ^ 24
  strings : c.literals.strings.length < 2 ^ 24
  locals : ∀ type, (c.locals.names type).length < 2 ^ 24

/-- Where the stack has values of the kinds `before` on top, the code leaves values of the kinds
`after` in their place. -/
def Carries (c : Surroundings) (code : Code) (before after : List Kind) : Prop :=
  ∀ shape, List.Forall₂ (Kind.Describes c) before shape →
    ∃ shape', List.Forall₂ (Kind.Describes c) after shape' ∧ Typed c code shape shape'

variable {c : Surroundings}

theorem describes_map_of_type (types : List ValueType) :
    List.Forall₂ (Kind.Describes c) (types.map Kind.ofType) (types.map Slot.ofType) := by
  induction types with
  | nil => exact .nil
  | cons type types ih => exact .cons (Kind.describes_of_type c type) ih

namespace Carries

variable {x y code : Code} {before between after rest : List Kind}

theorem nil (kinds : List Kind) : Carries c [] kinds kinds :=
  fun shape hshape => ⟨shape, hshape, .nil shape⟩

theorem append (hx : Carries c x before between) (hy : Carries c y between after) :
    Carries c (x ++ y) before after := by
  intro shape hshape
  obtain ⟨middle, hmiddle, htyped⟩ := hx shape hshape
  obtain ⟨shape', hshape', htyped'⟩ := hy middle hmiddle
  exact ⟨shape', hshape', htyped.append htyped'⟩

/-- What lies deeper on the stack stays there. -/
theorem frame (h : Carries c code before after) (rest : List Kind) :
    Carries c code (before ++ rest) (after ++ rest) := by
  intro shape hshape
  have htop := List.forall₂_take before.length hshape
  have hdeep := List.forall₂_drop before.length hshape
  rw [List.take_left] at htop
  rw [List.drop_left] at hdeep
  obtain ⟨shape', hshape', htyped⟩ := h _ htop
  have hframe := htyped.frame (shape.drop before.length)
  rw [List.take_append_drop] at hframe
  exact ⟨shape' ++ shape.drop before.length, List.rel_append hshape' hdeep, hframe⟩

/-- Code that starts from nothing adds to what is on the stack. -/
theorem add (hx : Carries c x before between) (hy : Carries c y [] after) :
    Carries c (x ++ y) before (after ++ between) :=
  hx.append (hy.frame between)

/-- Code that starts from nothing and leaves nothing is safe. -/
theorem safe (h : Carries c code [] []) : Typed c code [] [] := by
  obtain ⟨shape, hshape, htyped⟩ := h [] .nil
  rw [List.forall₂_nil_left_iff.1 hshape] at htyped
  exact htyped

theorem of_typed (h : Typed c code [] []) : Carries c code [] [] := by
  intro shape hshape
  rw [List.forall₂_nil_left_iff.1 hshape]
  exact ⟨[], .nil, h⟩

theorem decides {type : ValueType} (h : Carries c code [] [Kind.ofType type]) :
    Decides c code := by
  obtain ⟨shape, hshape, htyped⟩ := h [] .nil
  obtain ⟨value, tail, hvalue, htail, rfl⟩ := List.forall₂_cons_left_iff.1 hshape
  rw [List.forall₂_nil_left_iff.1 htail] at htyped
  exact ⟨value, Kind.is_value hvalue, htyped⟩

/-! ### Single words -/

theorem push {index : Nat} {kind : Kind} (hlt : index < 2 ^ 24)
    (hkind : kind.Describes c (.index index)) : Carries c [Assembly.push index] [] [kind] := by
  intro shape hshape
  obtain rfl := List.forall₂_nil_left_iff.1 hshape
  refine ⟨[.index index], .cons hkind .nil, .word (Assembly.decode_push hlt) rfl ?_⟩
  have h := Effect.push (c := c) (UInt32.ofNat index) []
  rwa [UInt32.toNat_ofNat', Nat.mod_eq_of_lt (by omega)] at h

end Carries

/-- An operation that has an effect on the stack goes on to the next word. -/
theorem Opcode.plain_of_effect? {opcode : Opcode} {effect : List Kind × List ValueType}
    (h : opcode.effect? = some effect) : Control.ofOpcode opcode = .plain := by
  cases opcode <;> simp_all [effect?, Control.ofOpcode]

theorem Control.of_instruction_op (opcode : Opcode) :
    Control.ofInstruction (.segment5 opcode.code) = Control.ofOpcode opcode := by
  rw [ofInstruction, Opcode.of_code?_code, Option.map_some, Option.getD_some]

namespace Carries

theorem op {opcode : Opcode} {before after : List Kind} {types : List ValueType}
    (heffect : opcode.effect? = some (before, types)) (hafter : types.map Kind.ofType = after) :
    Carries c [Assembly.op opcode] before after := by
  subst hafter
  intro shape hshape
  refine ⟨types.map Slot.ofType, describes_map_of_type types, ?_⟩
  have h := Effect.builtin heffect hshape []
  rw [List.append_nil, List.append_nil] at h
  refine .word (Assembly.decode_op opcode) ?_ h
  rw [Control.of_instruction_op, Opcode.plain_of_effect? heffect]

/-- The second value becomes a float. -/
theorem int_to_float1 (kind : Kind) :
    Carries c [Assembly.op .intToFloat1] [kind, .long] [kind, .float] := by
  intro shape hshape
  obtain ⟨top, rest, htop, hrest, rfl⟩ := List.forall₂_cons_left_iff.1 hshape
  obtain ⟨second, rest, hsecond, hnil, rfl⟩ := List.forall₂_cons_left_iff.1 hrest
  obtain rfl := List.forall₂_nil_left_iff.1 hnil
  obtain rfl : second = .long := by
    cases second with
    | long => rfl
    | index | float => cases hsecond
  refine ⟨[top, .float], .cons htop (.cons trivial .nil), ?_⟩
  exact .word (Assembly.decode_op _) (Control.of_instruction_op _) (.intToFloat1 top [])

end Carries

/-! ### Literals -/

/-- Behind a list stands an element of any longer list that continues with it. -/
theorem get_elem?_of_continued {α : Type} {l larger : List α} {a : α} (h : l ++ [a] <+: larger) :
    larger[l.length]? = some a := by
  obtain ⟨rest, rfl⟩ := h
  simp

/-- Code that is made with new literals carries the stack, if its literals are among those of the
surroundings. -/
def Emits (c : Surroundings) (make : Literals → Code × Literals) (before after : List Kind) :
    Prop :=
  ∀ pool, (make pool).2.Within c.literals → Carries c (make pool).1 before after

/-- The same for code that may be cut short by a defect. -/
def EmitsFragment (c : Surroundings) (make : Literals → Fragment × Literals)
    (before after : List Kind) : Prop :=
  ∀ pool, (make pool).2.Within c.literals → (make pool).1.defect = none →
    Carries c (make pool).1.code before after

/-! ### Constructs -/

namespace Assembly

/-! The constructs that push indices need surroundings where these fit. -/

variable (hc : c.Addressable)

include hc in
theorem push_int_emits (value : Int32) : Emits c (pushInt value) [] [.long] := by
  intro pool h
  have hlt : pool.integers.length < c.literals.integers.length :=
    (List.getElem?_eq_some_iff.1 (get_elem?_of_continued h.integers)).1
  exact (Carries.push (hlt.trans hc.integers) (show Kind.integer.Describes c _ from hlt)).append
    (.op rfl rfl)

include hc in
theorem push_float_emits (value : Binary32) : Emits c (pushFloat value) [] [.float] := by
  intro pool h
  have hlt : pool.floats.length < c.literals.floats.length :=
    (List.getElem?_eq_some_iff.1 (get_elem?_of_continued h.floats)).1
  exact (Carries.push (hlt.trans hc.floats) (show Kind.decimal.Describes c _ from hlt)).append
    (.op rfl rfl)

include hc in
theorem push_string_emits (value : String) : Emits c (pushString value) [] [.text] := by
  intro pool h
  have hlt : pool.strings.length < c.literals.strings.length :=
    (List.getElem?_eq_some_iff.1 (get_elem?_of_continued h.strings)).1
  exact Carries.push (hlt.trans hc.strings) hlt

theorem convert_carries (source target : ValueType) :
    Carries c (convert source target) [.ofType source] [.ofType target] := by
  unfold convert
  split
  next hsource htarget =>
    rw [Kind.ofType, Kind.ofType, hsource, htarget]
    exact .op rfl rfl
  next hsource htarget =>
    rw [Kind.ofType, Kind.ofType, hsource, htarget]
    exact .op rfl rfl
  next h h' =>
    have heq : source.isFloat = target.isFloat := by
      cases hsource : source.isFloat <;> cases htarget : target.isFloat
      · rfl
      · exact (h' hsource htarget).elim
      · exact (h hsource htarget).elim
      · rfl
    rw [Kind.ofType, Kind.ofType, heq]
    exact .nil _

theorem negate_carries (type : ValueType) :
    Carries c (negate type) [.ofType type] [.ofType type] := by
  unfold negate Kind.ofType
  split <;> exact .op rfl rfl

/-- An operation on two numbers, where the variant for integers leaves a number of the type
`whole` and the one for floats a number of the type `real`. -/
theorem binary_carries {left right whole real : ValueType} {intOp floatOp : Opcode}
    (hint : intOp.effect? = some ([.long, .long], [whole]))
    (hfloat : floatOp.effect? = some ([.float, .float], [real])) :
    Carries c (binary left right intOp floatOp) [.ofType right, .ofType left]
      [.ofType (if left.isFloat || right.isFloat then real else whole)] := by
  cases hleft : left.isFloat <;> cases hright : right.isFloat <;>
    simp only [binary, Kind.ofType, hleft, hright, Bool.not_false, Bool.not_true, Bool.and_true,
      Bool.and_false, Bool.or_false, Bool.or_true, Bool.false_eq_true, if_true, if_false,
      List.nil_append, List.append_nil]
  · exact .op hint rfl
  · exact (Carries.int_to_float1 .float).append (.op hfloat rfl)
  · have hconvert : Carries c [op .intToFloat] [.long] [.float] := .op rfl rfl
    exact (hconvert.frame [.float]).append (.op hfloat rfl)
  · exact .op hfloat rfl

include hc

/-- The index of a local variable. -/
theorem push_variable_carries {type : ValueType} {index : Nat}
    (hindex : index < (c.locals.names type).length) :
    Carries c [push index] [] [.variable type] :=
  .push (hindex.trans (hc.locals type)) hindex

theorem fetch_local_carries {type : ValueType} {index : Nat}
    (hindex : index < (c.locals.names type).length) :
    Carries c (fetchLocal type index) [] [.ofType type] := by
  refine (push_variable_carries hc hindex).append (y := [op _]) ?_
  cases type <;> exact .op rfl rfl

theorem assign_to_local_carries {type valueType : ValueType} {index : Nat} {value : Code}
    (hindex : index < (c.locals.names type).length)
    (hvalue : Carries c value [] [.ofType valueType]) :
    Carries c (assignToLocal type index value valueType) [] [] := by
  have hready : Carries c ([push index] ++ value ++ convert valueType type) []
      [.ofType type, .variable type] :=
    ((push_variable_carries hc hindex).add hvalue).append ((convert_carries _ _).frame _)
  refine hready.append ?_
  cases type <;> exact .op rfl rfl

theorem fetch_global_emits (type : ValueType) (name : String) :
    Emits c (fetchGlobal type name) [] [.ofType type] := by
  intro pool h
  refine (push_string_emits hc name pool h).append ?_
  cases type <;> exact .op rfl rfl

theorem assign_to_global_emits {type valueType : ValueType} {name : String} {value : Code}
    (hvalue : Carries c value [] [.ofType valueType]) :
    Emits c (assignToGlobal type name value valueType) [] [] := by
  intro pool h
  have hready := ((push_string_emits hc name pool h).add hvalue).append
    ((convert_carries _ type).frame _)
  refine hready.append ?_
  cases type <;> exact .op rfl rfl

theorem push_member_emits (name id : String) : Emits c (pushMember name id) [] [.text, .text] := by
  intro pool h
  have hname : (pushString name pool).2.Within c.literals :=
    (within_push_string id (pushString name pool).2).trans h
  exact (push_string_emits hc name pool hname).add (push_string_emits hc id _ h)

theorem fetch_member_emits (type : ValueType) (name id : String) (global : Bool) :
    Emits c (fetchMember type name id global) [] [.ofType type] := by
  intro pool h
  refine (push_member_emits hc name id pool h).append ?_
  cases global <;> cases type <;> exact .op rfl rfl

theorem assign_to_member_emits {type valueType : ValueType} {name id : String} {value : Code}
    (hvalue : Carries c value [] [.ofType valueType]) (global : Bool) :
    Emits c (assignToMember type name id value valueType global) [] [] := by
  intro pool h
  have hready := ((push_member_emits hc name id pool h).add hvalue).append
    ((convert_carries _ type).frame _)
  refine hready.append ?_
  cases global <;> cases type <;> exact .op rfl rfl

/-- An operation on an object finds the text of the object above what it takes otherwise. -/
theorem with_reference_emits (id : String) {plain explicit : Opcode} {before after : List Kind}
    {types : List ValueType} (hplain : plain.effect? = some (before, types))
    (hexplicit : explicit.effect? = some (.text :: before, types))
    (hafter : types.map Kind.ofType = after) :
    Emits c (withReference id plain explicit) before after := by
  intro pool
  unfold withReference
  split
  · exact fun _ => .op hplain hafter
  · exact fun h => ((push_string_emits hc id pool h).frame before).append (.op hexplicit hafter)

/-- The index of a new text leads to that text. -/
theorem push_string_typed {value : String} {pool : Literals}
    (h : (pushString value pool).2.Within c.literals) (shape : Shape) :
    c.literals.strings[pool.strings.length]? = some value ∧
      Typed c (pushString value pool).1 shape (.index pool.strings.length :: shape) := by
  have hvalue := get_elem?_of_continued h.strings
  have hlt := (List.getElem?_eq_some_iff.1 hvalue).1.trans hc.strings
  refine ⟨hvalue, .word (decode_push hlt) rfl ?_⟩
  have heffect := Effect.push (c := c) (UInt32.ofNat pool.strings.length) shape
  rwa [UInt32.toNat_ofNat', Nat.mod_eq_of_lt (by omega)] at heffect

theorem report_emits (format : String) :
    Emits c (report format) (Signature.mandatory (MessageFormat.signature format)) [] := by
  intro pool h shape hshape
  obtain ⟨hformat, hpush⟩ := push_string_typed hc h shape
  refine ⟨[], .nil, hpush.append ?_⟩
  have heffect := Effect.report hformat hshape []
  rw [List.append_nil] at heffect
  exact .word (decode_op _) (Control.of_instruction_op _) heffect

theorem message_emits (text : String) (buttons : Nat) :
    EmitsFragment c (message text buttons)
      (List.replicate buttons .text ++ Signature.mandatory (MessageFormat.signature text)) [] := by
  intro pool
  unfold message
  split
  · intro _ hdefect
    cases hdefect
  next hbuttons =>
    have hfits : (UInt32.ofNat buttons).toNat = buttons := by
      rw [UInt32.toNat_ofNat', Nat.mod_eq_of_lt (by omega)]
    intro h _ shape hshape
    refine ⟨[], .nil, ?_⟩
    obtain ⟨hformat, hpush⟩ := push_string_typed hc h shape
    refine hpush.append ?_
    have hlabels := List.forall₂_take buttons hshape
    have hvalues := List.forall₂_drop buttons hshape
    rw [List.take_left' List.length_replicate, ← hfits] at hlabels
    rw [List.drop_left' List.length_replicate] at hvalues
    have heffect : Effect c (.segment3 Instruction.messageBoxOp (UInt32.ofNat buttons)) _ _ :=
      .message hformat hlabels hvalues []
    rw [List.append_nil, hfits, List.take_append_drop] at heffect
    refine .word (Instruction.decode_encode_segment3 (by decide) ?_) rfl heffect
    omega

end Assembly

namespace Extension

variable {extension : Extension} {opcode : UInt32} {optionals : Nat}

/-- The word of a call is read back as the instruction that calls the entry. -/
theorem call_word_eq (hadmits : extension.format.admits opcode = true)
    (hcount : extension.format = .five → optionals = 0)
    (hdefect : (extension.callWord opcode optionals).defect = none) :
    ∃ w, (extension.callWord opcode optionals).code = [w] ∧
      Instruction.decode? w = some (extension.instruction opcode (UInt32.ofNat optionals)) ∧
      Control.ofInstruction (extension.instruction opcode (UInt32.ofNat optionals)) = .plain ∧
      (UInt32.ofNat optionals).toNat = optionals := by
  unfold callWord at hdefect ⊢
  unfold instruction
  cases hformat : extension.format with
  | three =>
      simp only [hformat, CallFormat.admits, Bool.and_eq_true, decide_eq_true_eq,
        UInt32.le_iff_toNat_le] at hadmits hdefect ⊢
      split at hdefect
      · cases hdefect
      next hlt =>
        have hfits : (UInt32.ofNat optionals).toNat = optionals := by
          rw [UInt32.toNat_ofNat', Nat.mod_eq_of_lt (by omega)]
        have hopcode : opcode.toNat < 2 ^ 18 := by
          have : opcode.toNat ≤ 0x2ffff := hadmits.2
          omega
        rw [if_neg hlt]
        exact ⟨_, rfl, Instruction.decode_encode_segment3 hopcode (by omega), rfl, hfits⟩
  | five =>
      simp only [hformat, CallFormat.admits, Bool.and_eq_true, decide_eq_true_eq,
        UInt32.le_iff_toNat_le] at hadmits ⊢
      have hlow : 0x2000000 ≤ opcode.toNat := hadmits.1
      have hhigh : opcode.toNat ≤ 0x3ffffff := hadmits.2
      -- The numbers of the host lie behind the table of operations.
      have hnone : Opcode.ofCode? opcode = none := by
        refine List.getElem?_eq_none ?_
        exact Nat.le_trans (by decide) hlow
      refine ⟨_, rfl, Instruction.decode_encode_segment5 (by omega), ?_, ?_⟩
      · rw [Control.ofInstruction, hnone]
        rfl
      · rw [hcount hformat]
        rfl

/-- The operation numbers of the entry lie in the host's part of its format. -/
def Admitted (extension : Extension) : Prop :=
  extension.format.admits extension.code = true ∧
    ∀ opcode, extension.explicitCode = some opcode → extension.format.admits opcode = true

theorem call_word_carries {keyword : String} {object : List Kind}
    (hentry : c.env.extensions.Has keyword extension)
    (hadmits : extension.format.admits opcode = true)
    (hcount : extension.format = .five → optionals = 0)
    (hoptionals : optionals ≤ (Signature.optional extension.arguments).length)
    (hselects : ∀ shape, List.Forall₂ (Kind.Describes c) object shape →
      extension.Selects opcode shape)
    (hdefect : (extension.callWord opcode optionals).defect = none) :
    Carries c (extension.callWord opcode optionals).code
      (object ++ Signature.kinds extension.arguments optionals)
      (extension.returns.toList.map Kind.ofType) := by
  obtain ⟨w, hcode, hdecode, hplain, hfits⟩ := call_word_eq hadmits hcount hdefect
  intro shape hshape
  have htop := List.forall₂_take object.length hshape
  have harguments := List.forall₂_drop object.length hshape
  rw [List.take_left] at htop
  rw [List.drop_left] at harguments
  refine ⟨extension.returns.toList.map Slot.ofType, describes_map_of_type _, ?_⟩
  rw [hcode]
  refine .word hdecode hplain ?_
  have heffect : Effect c (extension.instruction opcode (UInt32.ofNat optionals)) _ _ :=
    .call hentry (hselects _ htop) (by rwa [hfits]) (by rwa [hfits]) []
  rwa [List.append_nil, List.append_nil, List.take_append_drop] at heffect

/-- The code of a call takes the arguments of the entry, as many optional ones as it says, and
leaves what the entry returns. -/
theorem call_emits (hc : c.Addressable) {keyword : String}
    (hentry : c.env.extensions.Has keyword extension) (hadmitted : extension.Admitted)
    (hoptionals : optionals ≤ (Signature.optional extension.arguments).length) (id : String) :
    EmitsFragment c (extension.call id optionals) (Signature.kinds extension.arguments optionals)
      (extension.returns.toList.map Kind.ofType) := by
  intro pool
  unfold call
  split
  · intro _ hdefect
    cases hdefect
  next hformat =>
    have hcount : extension.format = .five → optionals = 0 := by
      intro hfive
      by_contra hne
      exact hformat ⟨hne, by rw [hfive]; nofun⟩
    split
    · intro _ hdefect
      exact call_word_carries hentry hadmitted.1 hcount hoptionals
        (fun shape h => Or.inl ⟨rfl, List.forall₂_nil_left_iff.1 h⟩) hdefect
    · split
      · intro _ hdefect
        cases hdefect
      next opcode hexplicit =>
        intro h hdefect
        refine ((Assembly.push_int_emits hc _ _ h).frame _).append ?_
        refine call_word_carries hentry (hadmitted.2 opcode hexplicit) hcount hoptionals
          (fun shape h => Or.inr ⟨hexplicit, ?_⟩) hdefect
        obtain ⟨top, rest, htop, hrest, rfl⟩ := List.forall₂_cons_left_iff.1 h
        obtain rfl := List.forall₂_nil_left_iff.1 hrest
        rw [Kind.eq_of_type (show (Kind.ofType .long).Describes c top from htop)]
        rfl

end Extension

end QuestScript
