import QuestScript.Proofs.Words

/-!
# Running code

What the words of a program do to the position of the machine. Most words are plain: what they do
to the stack and to the world is up to a `Host`, and the machine goes on to the next word. Jumps
move relative to their own word, a skip takes the topmost value and passes over one word if the
value is right, and `Return` stops.

`runSteps` runs any system of transitions that emit something, and `Reaches` says what such a
system can come to.
-/

namespace QuestScript

/-! ### Transition systems -/

section Transitions

variable {σ α : Type} {next : σ → Option (List α × σ)}

/-- Takes exactly this many transitions and collects what they emit. -/
def runSteps (next : σ → Option (List α × σ)) : Nat → σ → Option (List α × σ)
  | 0, state => some ([], state)
  | count + 1, state => do
    let (first, between) ← next state
    let (rest, final) ← runSteps next count between
    pure (first ++ rest, final)

/-- Some number of transitions leads from one state to another and emits the trace. -/
def Reaches (next : σ → Option (List α × σ)) (start : σ) (trace : List α) (final : σ) : Prop :=
  ∃ count, runSteps next count start = some (trace, final)

theorem run_steps_succ_eq_some {count : Nat} {start final : σ} {trace : List α} :
    runSteps next (count + 1) start = some (trace, final) ↔
      ∃ first between rest, next start = some (first, between) ∧
        runSteps next count between = some (rest, final) ∧ trace = first ++ rest := by
  constructor
  · intro h
    simp only [runSteps, bind, Option.bind_eq_some_iff] at h
    obtain ⟨⟨first, between⟩, hfirst, ⟨rest, last⟩, hrest, h⟩ := h
    cases h
    exact ⟨first, between, rest, hfirst, hrest, rfl⟩
  · rintro ⟨first, between, rest, hfirst, hrest, rfl⟩
    simp [runSteps, hfirst, hrest]

/-- Two runs in a row are one run. -/
theorem run_steps_append {first second : Nat} {start between final : σ} {head tail : List α}
    (hhead : runSteps next first start = some (head, between))
    (htail : runSteps next second between = some (tail, final)) :
    runSteps next (first + second) start = some (head ++ tail, final) := by
  induction first generalizing start head with
  | zero =>
      cases hhead
      simpa using htail
  | succ first ih =>
      obtain ⟨emitted, middle, rest, hnext, hrest, rfl⟩ := run_steps_succ_eq_some.1 hhead
      rw [Nat.succ_add]
      exact run_steps_succ_eq_some.2
        ⟨emitted, middle, rest ++ tail, hnext, ih hrest, List.append_assoc _ _ _⟩

/-- A run stops on the way to its end after any smaller number of transitions. -/
theorem run_steps_split {first second : Nat} {start final : σ} {trace : List α}
    (h : runSteps next (first + second) start = some (trace, final)) :
    ∃ head between tail, runSteps next first start = some (head, between) ∧
      runSteps next second between = some (tail, final) ∧ trace = head ++ tail := by
  induction first generalizing start trace with
  | zero =>
      rw [Nat.zero_add] at h
      exact ⟨[], start, trace, rfl, h, rfl⟩
  | succ first ih =>
      rw [Nat.succ_add] at h
      obtain ⟨emitted, middle, rest, hnext, hrest, rfl⟩ := run_steps_succ_eq_some.1 h
      obtain ⟨head, between, tail, hhead, htail, rfl⟩ := ih hrest
      exact ⟨emitted ++ head, between, tail,
        run_steps_succ_eq_some.2 ⟨emitted, middle, head, hnext, hhead, rfl⟩, htail,
        (List.append_assoc _ _ _).symm⟩

/-- Of two runs from one state, the longer one goes on from where the shorter one ends. -/
theorem run_steps_of_le {short long : Nat} {start between final : σ} {head trace : List α}
    (hle : short ≤ long) (hlong : runSteps next long start = some (trace, final))
    (hshort : runSteps next short start = some (head, between)) :
    ∃ tail, runSteps next (long - short) between = some (tail, final) ∧ trace = head ++ tail := by
  obtain ⟨rest, rfl⟩ := Nat.exists_eq_add_of_le hle
  obtain ⟨head', between', tail, hhead, htail, rfl⟩ := run_steps_split hlong
  cases hhead.symm.trans hshort
  exact ⟨tail, by rwa [Nat.add_sub_cancel_left], rfl⟩

/-- A state without a transition ends every run that comes to it. -/
theorem run_steps_of_stuck {count : Nat} {start final : σ} {trace : List α}
    (hstuck : next start = none) (h : runSteps next count start = some (trace, final)) :
    count = 0 := by
  cases count with
  | zero => rfl
  | succ count =>
      obtain ⟨_, _, _, hnext, -, -⟩ := run_steps_succ_eq_some.1 h
      rw [hstuck] at hnext
      cases hnext

theorem Reaches.refl (state : σ) : Reaches next state [] state :=
  ⟨0, rfl⟩

theorem Reaches.trans {start between final : σ} {head tail : List α}
    (hhead : Reaches next start head between) (htail : Reaches next between tail final) :
    Reaches next start (head ++ tail) final := by
  obtain ⟨first, hfirst⟩ := hhead
  obtain ⟨second, hsecond⟩ := htail
  exact ⟨first + second, run_steps_append hfirst hsecond⟩

end Transitions

/-! ### What a word does to the position -/

/-- Where the machine goes after a word. -/
inductive Control where
  /-- On to the next word. -/
  | plain
  /-- Ahead or back by an offset, counted from the word itself. -/
  | jump (offset : Int)
  /-- Over the next word if the topmost value is zero, or if it is not. -/
  | skip (onZero : Bool)
  /-- Nowhere. -/
  | stop
  deriving DecidableEq, Inhabited

namespace Control

/-- Where the machine goes after a built-in operation. -/
def ofOpcode : Opcode → Control
  | .skipOnZero => .skip true
  | .skipOnNonZero => .skip false
  | .exit => .stop
  | _ => .plain

/-- Where the machine goes after an instruction. -/
def ofInstruction : Instruction → Control
  | .segment0 op distance =>
    if op = Instruction.jumpForwardOp then .jump distance.toNat
    else if op = Instruction.jumpBackwardOp then .jump (-distance.toNat)
    else .plain
  | .segment5 op => ((Opcode.ofCode? op).map ofOpcode).getD .plain
  | _ => .plain

/-- Where the machine goes after a word, unless the word is reserved. -/
def ofWord? (w : Word) : Option Control :=
  (Instruction.decode? w).map ofInstruction

/-- Where the machine goes after a word. Reserved words are the host's. -/
def ofWord (w : Word) : Control :=
  (ofWord? w).getD .plain

theorem of_word_of_of_word? {w : Word} {control : Control} (h : ofWord? w = some control) :
    ofWord w = control := by
  rw [ofWord, h, Option.getD_some]

theorem of_word?_op (opcode : Opcode) : ofWord? (Assembly.op opcode) = some (ofOpcode opcode) := by
  simp [ofWord?, Assembly.decode_op, ofInstruction, Opcode.of_code?_code]

end Control

namespace Assembly

/-- A jump is one word. It moves by the offset if that fits its field. -/
theorem jump_eq {offset : Int} (h : offset ≠ 0) :
    ∃ w, jump offset = ⟨[w], none⟩ ∧
      (offset.natAbs < 2 ^ 24 → Control.ofWord? w = some (.jump offset)) := by
  have hforward : Instruction.jumpForwardOp.toNat < 2 ^ 6 := by decide
  have hbackward : Instruction.jumpBackwardOp.toNat < 2 ^ 6 := by decide
  have hne : Instruction.jumpBackwardOp ≠ Instruction.jumpForwardOp := by decide
  rw [jump, if_neg h]
  by_cases hpos : 0 < offset
  · refine ⟨_, if_pos hpos, fun hlt => ?_⟩
    have hfits : (UInt32.ofNat offset.natAbs).toNat = offset.natAbs := by
      rw [UInt32.toNat_ofNat', Nat.mod_eq_of_lt (by omega)]
    rw [Control.ofWord?, Instruction.decode_encode_segment0 hforward (hfits.trans_lt hlt),
      Option.map_some, Control.ofInstruction, if_pos rfl, hfits, Int.natAbs_of_nonneg (by omega)]
  · refine ⟨_, if_neg hpos, fun hlt => ?_⟩
    have hfits : (UInt32.ofNat offset.natAbs).toNat = offset.natAbs := by
      rw [UInt32.toNat_ofNat', Nat.mod_eq_of_lt (by omega)]
    rw [Control.ofWord?, Instruction.decode_encode_segment0 hbackward (hfits.trans_lt hlt),
      Option.map_some, Control.ofInstruction, if_neg hne, if_pos rfl, hfits,
      show -(offset.natAbs : Int) = offset by omega]

/-- A forward jump on zero is a skip with such a jump behind it. -/
theorem jump_on_zero_eq {offset : Int} (h : 0 < offset) :
    ∃ w, jumpOnZero offset = ⟨[op .skipOnNonZero, w], none⟩ ∧
      (offset.natAbs < 2 ^ 24 → Control.ofWord? w = some (.jump offset)) := by
  obtain ⟨w, hjump, hw⟩ := jump_eq (show offset ≠ 0 by omega)
  refine ⟨w, ?_, hw⟩
  rw [jumpOnZero, if_neg (by omega), hjump]

end Assembly

/-! ### The machine -/

/-- What plain words do to the stack and to the world, and which values count as zero. -/
structure Host (ν ω : Type) where
  exec : Word → List ν × ω → List ν × ω
  isZero : ν → Bool

/-- The position of the next word, the stack and the world. -/
structure MachineState (ν ω : Type) where
  position : Nat
  memory : List ν × ω

variable {ν ω : Type}

namespace Host

/-- What a sequence of plain words does. -/
def execAll (host : Host ν ω) (code : Code) (memory : List ν × ω) : List ν × ω :=
  code.foldl (fun memory w => host.exec w memory) memory

/-- One step of the machine, which emits the word if that is plain. There is none outside of the
code, at `Return`, for a jump to before the code, and for a skip without a value. -/
def next (host : Host ν ω) (code : Code) (state : MachineState ν ω) :
    Option (Code × MachineState ν ω) :=
  match code[state.position]? with
  | none => none
  | some w =>
    match Control.ofWord w with
    | .plain => some ([w], ⟨state.position + 1, host.exec w state.memory⟩)
    | .jump offset =>
      if 0 ≤ state.position + offset then
        some ([], ⟨(state.position + offset).toNat, state.memory⟩)
      else none
    | .skip onZero =>
      match state.memory with
      | (value :: stack, world) =>
        some ([], ⟨state.position + (if host.isZero value = onZero then 2 else 1),
          (stack, world)⟩)
      | ([], _) => none
    | .stop => none

end Host

/-- The fragment has neither jumps nor skips and does not stop. -/
def Straight (fragment : Code) : Prop :=
  ∀ w ∈ fragment, Control.ofWord w = .plain

theorem straight_op {opcode : Opcode} (h : Control.ofOpcode opcode = .plain) :
    Straight [Assembly.op opcode] := by
  intro w hw
  rw [List.mem_singleton.1 hw, Control.of_word_of_of_word? (Control.of_word?_op opcode), h]

/-- A part of the code stands at a position. -/
def Stands (code : Code) (position : Nat) (part : Code) : Prop :=
  ∃ before after, code = before ++ part ++ after ∧ before.length = position

namespace Stands

variable {code part rest : Code} {position : Nat} {w : Word}

theorem left (h : Stands code position (part ++ rest)) : Stands code position part := by
  obtain ⟨before, after, rfl, rfl⟩ := h
  exact ⟨before, rest ++ after, by simp, rfl⟩

theorem right (h : Stands code position (part ++ rest)) :
    Stands code (position + part.length) rest := by
  obtain ⟨before, after, rfl, rfl⟩ := h
  exact ⟨before ++ part, after, by simp, by simp⟩

theorem get_elem? (h : Stands code position (w :: rest)) : code[position]? = some w := by
  obtain ⟨before, after, rfl, rfl⟩ := h
  simp

theorem tail (h : Stands code position (w :: rest)) : Stands code (position + 1) rest := by
  obtain ⟨before, after, rfl, rfl⟩ := h
  exact ⟨before ++ [w], after, by simp, by simp⟩

end Stands

/-- A straight fragment runs from its first word to behind its last. -/
theorem Straight.reaches {host : Host ν ω} {code fragment : Code} {position : Nat}
    (hstraight : Straight fragment) (hstands : Stands code position fragment)
    (memory : List ν × ω) :
    runSteps (host.next code) fragment.length ⟨position, memory⟩ =
      some (fragment, ⟨position + fragment.length, host.execAll fragment memory⟩) := by
  induction fragment generalizing position memory with
  | nil => rfl
  | cons w rest ih =>
      have hplain : Control.ofWord w = .plain := hstraight w (by simp)
      have hnext : host.next code ⟨position, memory⟩ =
          some ([w], ⟨position + 1, host.exec w memory⟩) := by
        simp [Host.next, hstands.get_elem?, hplain]
      have hrest := ih (fun v hv => hstraight v (by simp [hv])) hstands.tail (host.exec w memory)
      refine run_steps_succ_eq_some.2 ⟨_, _, _, hnext, hrest, rfl⟩ |>.trans ?_
      simp only [List.singleton_append, List.length_cons, Host.execAll, List.foldl_cons]
      congr 3
      omega

end QuestScript
