import QuestScript.ControlFlow
import QuestScript.Proofs.Machine

/-!
# Flattening keeps the flow of control

A `Flow` is code as it was before blocks became flat: fragments without jumps, conditionals and
loops, nested in any way. `Flow.next` runs it fragment by fragment and `Flow.flatten` turns it
into words, from the innermost blocks outwards.

The main statement is `Flow.exists_flatten_done_by`: the machine executes on the flat code exactly
the fragments that are executed in the flow, and is behind the flat code when the flow has ended.
It comes from `Placed.step`, where one step of the flow is matched by the machine. The machine
need not move for a step, but then what is left of the flow gets smaller.
-/

namespace QuestScript

mutual
/-- A sequence of fragments and blocks. -/
inductive Flow where
  | done
  | fragment (code : Code) (rest : Flow)
  | conditional (arms : Cascade) (rest : Flow)
  | loop (condition : Code) (body rest : Flow)

/-- The arms of a conditional block. An arm without a condition is one behind `else`. -/
inductive Cascade where
  | done
  | arm (condition : Option Code) (body : Flow) (rest : Cascade)
end

mutual
/-- The words of a flow, where every block has been flattened. -/
def Flow.flatten : Flow → Except Defect Code
  | .done => .ok []
  | .fragment code rest => do
    let tail ← rest.flatten
    pure (code ++ tail)
  | .conditional arms rest => do
    let block ← ControlFlow.conditional (← arms.flatten)
    let tail ← rest.flatten
    pure (block ++ tail)
  | .loop condition body rest => do
    let block ← ControlFlow.loop condition (← body.flatten)
    let tail ← rest.flatten
    pure (block ++ tail)

/-- The arms with flat bodies. -/
def Cascade.flatten : Cascade → Except Defect (List Arm)
  | .done => .ok []
  | .arm condition body rest => do
    let code ← body.flatten
    let tail ← rest.flatten
    pure (⟨condition, code⟩ :: tail)
end

variable {ν ω : Type}

/-- The fragment can serve as a condition: it is not empty, and it leaves one value. -/
def IsCondition (host : Host ν ω) (condition : Code) : Prop :=
  condition ≠ [] ∧ Straight condition ∧
    ∀ stack world, ∃ value after, host.execAll condition (stack, world) = (value :: stack, after)

mutual
/-- All fragments of the flow are straight, and its conditions can serve as such. -/
def Flow.Regular (host : Host ν ω) : Flow → Prop
  | .done => True
  | .fragment code rest => Straight code ∧ rest.Regular host
  | .conditional arms rest => arms.Regular host ∧ rest.Regular host
  | .loop condition body rest =>
    IsCondition host condition ∧ body.Regular host ∧ rest.Regular host

/-- All fragments of the arms are straight, and their conditions can serve as such. -/
def Cascade.Regular (host : Host ν ω) : Cascade → Prop
  | .done => True
  | .arm condition body rest =>
    (∀ c, condition = some c → IsCondition host c) ∧ body.Regular host ∧ rest.Regular host
end

/-- One step of a flow, given as what is being read and what comes behind it. A fragment, or the
condition that decides between two ways, is executed and emitted. Nothing is left to do when all
flows have ended. -/
def Flow.next (host : Host ν ω) :
    List Flow × (List ν × ω) → Option (List Code × (List Flow × (List ν × ω)))
  | ([], _) => none
  | (.done :: behind, memory) => some ([], (behind, memory))
  | (.fragment code rest :: behind, memory) =>
    some ([code], (rest :: behind, host.execAll code memory))
  | (.conditional .done rest :: behind, memory) => some ([], (rest :: behind, memory))
  | (.conditional (.arm none body _) rest :: behind, memory) =>
    some ([], (body :: rest :: behind, memory))
  | (.conditional (.arm (some condition) body arms) rest :: behind, memory) =>
    match host.execAll condition memory with
    | (value :: stack, world) =>
      if host.isZero value then
        some ([condition], (.conditional arms rest :: behind, (stack, world)))
      else some ([condition], (body :: rest :: behind, (stack, world)))
    | ([], _) => none
  | (.loop condition body rest :: behind, memory) =>
    match host.execAll condition memory with
    | (value :: stack, world) =>
      if host.isZero value then some ([condition], (rest :: behind, (stack, world)))
      else
        some ([condition], (body :: .loop condition body rest :: behind, (stack, world)))
    | ([], _) => none

/-! ### The shape of flat blocks -/

theorem except_bind_eq_ok {ε α β : Type} {x : Except ε α} {f : α → Except ε β} {b : β} :
    (x >>= f) = .ok b ↔ ∃ a, x = .ok a ∧ f a = .ok b := by
  cases x <;> simp [bind, Except.bind]

namespace ControlFlow

/-- What stands in front of a body that is `length` words long: nothing, or a condition and a
jump over the body. -/
def Guards (condition : Option Code) (length : Nat) (guard : Code) : Prop :=
  match condition with
  | none => guard = []
  | some c => ∃ w, guard = c ++ [Assembly.op .skipOnNonZero, w] ∧
      (length + 1 < 2 ^ 24 → Control.ofWord? w = some (.jump (length + 1)))

/-- What stands behind the body of an arm: a jump over the arms that follow, which have the code
`tail`. The last arm has none. -/
def Leaves (tail leave : Code) : Prop :=
  (leave = [] ∧ tail = []) ∨
    ∃ w, leave = [w] ∧
      (tail.length + 1 < 2 ^ 24 → Control.ofWord? w = some (.jump (tail.length + 1)))

theorem guarded_eq (condition : Option Code) (body : Code) :
    ∃ guard, guarded condition body = .ok (guard ++ body) ∧
      Guards condition body.length guard := by
  cases condition with
  | none => exact ⟨[], rfl, rfl⟩
  | some c =>
      obtain ⟨w, hjump, hw⟩ :=
        Assembly.jump_on_zero_eq (show (0 : Int) < body.length + 1 by omega)
      refine ⟨c ++ [Assembly.op .skipOnNonZero, w], ?_, w, rfl, fun hlt => hw (by omega)⟩
      rw [guarded, hjump]
      rfl

/-- The code of a conditional is that of its first arm, followed by that of the others. -/
theorem conditional_cons_eq (arm : Arm) {arms : List Arm} {tail : Code}
    (htail : conditional arms = .ok tail) :
    ∃ guard leave, conditional (arm :: arms) = .ok (guard ++ (arm.body ++ leave) ++ tail) ∧
      Guards arm.condition (arm.body ++ leave).length guard ∧ Leaves tail leave := by
  cases arms with
  | nil =>
      cases htail
      obtain ⟨guard, hcode, hguard⟩ := guarded_eq arm.condition arm.body
      refine ⟨guard, [], ?_, ?_, Or.inl ⟨rfl, rfl⟩⟩
      · simpa [conditional] using hcode
      · simpa using hguard
  | cons second others =>
      obtain ⟨w, hjump, hw⟩ := Assembly.jump_eq (show (tail.length + 1 : Int) ≠ 0 by omega)
      obtain ⟨guard, hcode, hguard⟩ := guarded_eq arm.condition (arm.body ++ [w])
      refine ⟨guard, [w], ?_, hguard, Or.inr ⟨w, rfl, fun hlt => hw (by omega)⟩⟩
      simp only [conditional, htail, bind, Except.bind, hjump, Fragment.toExcept, hcode]
      rfl

/-- Every conditional has code. -/
theorem exists_conditional_eq (arms : List Arm) : ∃ code, conditional arms = .ok code := by
  induction arms with
  | nil => exact ⟨[], rfl⟩
  | cons arm arms ih =>
      obtain ⟨tail, htail⟩ := ih
      obtain ⟨_, _, hcode, -⟩ := conditional_cons_eq arm htail
      exact ⟨_, hcode⟩

/-- The code of a loop with a condition: the condition, a jump over the rest, the body, and a jump
back. -/
theorem loop_eq {condition : Code} (hcondition : condition ≠ []) (body : Code) :
    ∃ guard back, loop condition body =
        .ok (condition ++ [Assembly.op .skipOnNonZero, guard] ++ body ++ [back]) ∧
      (condition.length + 2 + body.length < 2 ^ 24 →
        Control.ofWord? guard = some (.jump (body.length + 2)) ∧
        Control.ofWord? back = some (.jump (-(condition.length + 2 + body.length)))) := by
  have hpos := List.length_pos_iff.2 hcondition
  obtain ⟨probe, hprobe, -⟩ :=
    Assembly.jump_eq (show (-(body.length + condition.length) : Int) ≠ 0 by omega)
  obtain ⟨guard, hguard, hover⟩ :=
    Assembly.jump_on_zero_eq (show (0 : Int) < body.length + 1 + 1 by omega)
  obtain ⟨back, hback, hreturn⟩ :=
    Assembly.jump_eq (show (-(body.length + condition.length + 2) : Int) ≠ 0 by omega)
  refine ⟨guard, back, ?_, fun hlt => ⟨?_, ?_⟩⟩
  · rw [loop, if_neg (by simpa using hcondition)]
    simp only [bind, Except.bind, Fragment.toExcept, hprobe, List.length_cons, List.length_nil,
      Nat.reduceAdd, Int.cast_ofNat_Int, hguard, hback, if_true]
    rfl
  · exact hover (by omega)
  · rw [hreturn (by omega)]
    congr 2
    omega

end ControlFlow

/-! ### Where a flow stands in the code -/

/-- Jumps alone lead from one position to another. -/
inductive Hops (code : Code) : Nat → Nat → Prop where
  | here (position : Nat) : Hops code position position
  | jump {position between final : Nat} {w : Word} (hw : code[position]? = some w)
      (hjump : Control.ofWord? w = some (.jump (between - position)))
      (hrest : Hops code between final) : Hops code position final

namespace Hops

variable {code : Code} {position between final : Nat} {w : Word}

/-- One jump that leads ahead over a part of the code. -/
theorem past {length : Nat} (hw : code[position]? = some w)
    (hjump : Control.ofWord? w = some (.jump length)) : Hops code position (position + length) :=
  .jump hw (hjump.trans (by congr 2; omega)) (.here _)

theorem trans (hfirst : Hops code position between) (hsecond : Hops code between final) :
    Hops code position final := by
  induction hfirst with
  | here => exact hsecond
  | jump hw hjump _ ih => exact .jump hw hjump (ih hsecond)

/-- The machine follows jumps without doing anything else. -/
theorem run (h : Hops code position final) (host : Host ν ω) (memory : List ν × ω) :
    ∃ count, runSteps (host.next code) count ⟨position, memory⟩ =
      some ([], ⟨final, memory⟩) := by
  induction h with
  | here => exact ⟨0, rfl⟩
  | @jump position between _ w hw hjump _ ih =>
      obtain ⟨count, hcount⟩ := ih
      have hnext : host.next code ⟨position, memory⟩ = some ([], ⟨between, memory⟩) := by
        simp [Host.next, hw, Control.of_word_of_of_word? hjump]
      exact ⟨count + 1, run_steps_succ_eq_some.2 ⟨_, _, _, hnext, hcount, rfl⟩⟩

end Hops

/-- The flows can be run one after the other from a position on: jumps lead to the flat code of
the first one, from behind that to the code of the second one, and so on until `stop`. -/
def Placed (code : Code) (stop : Nat) : Nat → List Flow → Prop
  | position, [] => Hops code position stop
  | position, flow :: behind =>
    ∃ start flat, Hops code position start ∧ flow.flatten = .ok flat ∧ flat.length < 2 ^ 24 ∧
      Stands code start flat ∧ Placed code stop (start + flat.length) behind

theorem Placed.hop {code : Code} {stop position start : Nat} {flows : List Flow}
    (h : Placed code stop start flows) (hhops : Hops code position start) :
    Placed code stop position flows := by
  cases flows with
  | nil => exact hhops.trans h
  | cons flow behind =>
      obtain ⟨first, flat, hfirst, hrest⟩ := h
      exact ⟨first, flat, hhops.trans hfirst, hrest⟩

/-! ### One step of a flow -/

section Step

variable {host : Host ν ω} {code : Code} {stop position : Nat}

/-- A condition with its skip behind it runs to the word after the skip if it leaves zero, and to
the word after that otherwise. -/
theorem IsCondition.run {condition rest : Code} {memory : List ν × ω} {value : ν}
    {stack : List ν} {world : ω} (hcondition : IsCondition host condition)
    (hstands : Stands code position (condition ++ Assembly.op .skipOnNonZero :: rest))
    (hleaves : host.execAll condition memory = (value :: stack, world)) :
    runSteps (host.next code) (condition.length + 1) ⟨position, memory⟩ =
      some (condition, ⟨position + condition.length + (if host.isZero value then 1 else 2),
        (stack, world)⟩) := by
  have hstraight : runSteps (host.next code) _ ⟨position, memory⟩ = _ :=
    hcondition.2.1.reaches hstands.left memory
  rw [hleaves] at hstraight
  have hskip : Control.ofWord (Assembly.op .skipOnNonZero) = .skip false :=
    Control.of_word_of_of_word? (Control.of_word?_op _)
  have hnext : host.next code ⟨position + condition.length, (value :: stack, world)⟩ =
      some ([], ⟨position + condition.length + (if host.isZero value then 1 else 2),
        (stack, world)⟩) := by
    cases hzero : host.isZero value <;> simp [Host.next, hstands.right.get_elem?, hskip, hzero]
  have hlast : runSteps (host.next code) 1 _ = _ :=
    run_steps_succ_eq_some.2 ⟨_, _, [], hnext, rfl, rfl⟩
  simpa using run_steps_append hstraight hlast

/-- How much of the flows is left to read. -/
noncomputable def Flow.weight (flows : List Flow) : Nat :=
  (flows.map sizeOf).sum

/-- The flows make a step that the machine follows. It executes the same fragments, and then
stands where what is left of the flows is. Where the machine does not move, less is left. -/
def Advances (host : Host ν ω) (code : Code) (stop position : Nat) (flows : List Flow)
    (memory : List ν × ω) : Prop :=
  ∃ trace rest after count final,
    Flow.next host (flows, memory) = some (trace, (rest, after)) ∧
    runSteps (host.next code) count ⟨position, memory⟩ = some (trace.flatten, ⟨final, after⟩) ∧
    Placed code stop final rest ∧ (∀ flow ∈ rest, flow.Regular host) ∧
    (0 < count ∨ Flow.weight rest < Flow.weight flows)

theorem Advances.fragment {fragment : Code} {rest : Flow} {behind : List Flow}
    (hplaced : Placed code stop position (.fragment fragment rest :: behind))
    (hregular : ∀ flow ∈ Flow.fragment fragment rest :: behind, flow.Regular host)
    (memory : List ν × ω) :
    Advances host code stop position (.fragment fragment rest :: behind) memory := by
  obtain ⟨start, flat, hhops, hflat, hlt, hstands, hbehind⟩ := hplaced
  simp only [Flow.flatten, except_bind_eq_ok, pure, Except.pure, Except.ok.injEq] at hflat
  obtain ⟨tail, htail, rfl⟩ := hflat
  simp only [List.mem_cons, forall_eq_or_imp, Flow.Regular] at hregular
  obtain ⟨⟨hstraight, hrest⟩, hothers⟩ := hregular
  obtain ⟨count, hcount⟩ := hhops.run host memory
  rw [List.length_append] at hlt hbehind
  refine ⟨[fragment], rest :: behind, host.execAll fragment memory, count + fragment.length,
    start + fragment.length, rfl, ?_, ?_, ?_, Or.inr ?_⟩
  · simpa using run_steps_append hcount (hstraight.reaches hstands.left memory)
  · exact ⟨_, tail, .here _, htail, by omega, hstands.right, by rwa [Nat.add_assoc]⟩
  · simpa using ⟨hrest, hothers⟩
  · simp only [Flow.weight, List.map_cons, List.sum_cons, Flow.fragment.sizeOf_spec]
    omega

theorem Advances.loop {condition : Code} {body rest : Flow} {behind : List Flow}
    (hplaced : Placed code stop position (.loop condition body rest :: behind))
    (hregular : ∀ flow ∈ Flow.loop condition body rest :: behind, flow.Regular host)
    (memory : List ν × ω) :
    Advances host code stop position (.loop condition body rest :: behind) memory := by
  obtain ⟨start, flat, hhops, hflat, hlt, hstands, hbehind⟩ := hplaced
  have hagain : Placed code stop start (.loop condition body rest :: behind) :=
    ⟨start, flat, .here _, hflat, hlt, hstands, hbehind⟩
  simp only [Flow.flatten, except_bind_eq_ok, pure, Except.pure, Except.ok.injEq] at hflat
  obtain ⟨words, hbody, block, hblock, tail, htail, rfl⟩ := hflat
  have hself := hregular
  simp only [List.mem_cons, forall_eq_or_imp, Flow.Regular] at hregular
  obtain ⟨⟨hcondition, hregularBody, hregularRest⟩, hothers⟩ := hregular
  obtain ⟨guard, back, hcode, hjumps⟩ := ControlFlow.loop_eq hcondition.1 words
  cases hcode.symm.trans hblock
  simp only [List.length_append, List.length_cons, List.length_nil] at hlt hbehind
  obtain ⟨hguard, hback⟩ := hjumps (by omega)
  obtain ⟨value, world, hleaves⟩ := hcondition.2.2 memory.1 memory.2
  obtain ⟨count, hcount⟩ := hhops.run host memory
  have hguarded : Stands code start
      (condition ++ Assembly.op .skipOnNonZero :: guard :: (words ++ [back] ++ tail)) := by
    simpa using hstands
  have hrun := run_steps_append hcount (hcondition.run hguarded hleaves)
  rw [List.nil_append] at hrun
  have hafter := hguarded.right.tail
  have hwords := hafter.tail.left
  -- At zero the guard jumps past the body. Otherwise the body comes next, and behind it the jump
  -- back to the loop.
  cases hzero : host.isZero value with
  | true =>
      rw [hzero, if_pos rfl] at hrun
      have hleave : Hops code (start + condition.length + 1)
          (start + condition.length + 1 + (words.length + 2)) :=
        .past hafter.get_elem? hguard
      have hplaced : Placed code stop (start + condition.length + 1) (rest :: behind) := by
        refine ⟨_, tail, hleave, htail, by omega, ?_, ?_⟩
        · convert hafter.tail.right using 1
          simp
          omega
        · convert hbehind using 1
          omega
      refine ⟨[condition], rest :: behind, (memory.1, world), count + (condition.length + 1),
        start + condition.length + 1, ?_, ?_, hplaced, ?_, Or.inl (by omega)⟩
      · simp [Flow.next, hleaves, hzero]
      · simpa using hrun
      · simpa using ⟨hregularRest, hothers⟩
  | false =>
      rw [hzero, if_neg Bool.false_ne_true] at hrun
      have hreturn : Hops code (start + condition.length + 2 + words.length) start := by
        refine .jump (hafter.tail.left.right.get_elem?) (hback.trans ?_) (.here _)
        congr 2
        push_cast
        omega
      have hplaced : Placed code stop (start + condition.length + 2)
          (body :: .loop condition body rest :: behind) :=
        ⟨_, words, .here _, hbody, by omega, hwords.left, hagain.hop hreturn⟩
      refine ⟨[condition], body :: .loop condition body rest :: behind, (memory.1, world),
        count + (condition.length + 1), start + condition.length + 2, ?_, ?_, hplaced, ?_,
        Or.inl (by omega)⟩
      · simp [Flow.next, hleaves, hzero]
      · simpa using hrun
      · rw [List.forall_mem_cons]
        exact ⟨hregularBody, hself⟩

/-- The words behind the body of an arm lead to behind the conditional. -/
theorem ControlFlow.Leaves.hops {tail leave : Code} (h : Leaves tail leave)
    (hlt : (leave ++ tail).length < 2 ^ 24) (hstands : Stands code position (leave ++ tail)) :
    Hops code position (position + (leave ++ tail).length) := by
  obtain ⟨rfl, rfl⟩ | ⟨w, rfl, hw⟩ := h
  · exact .here _
  · have hover := Hops.past hstands.get_elem? (hw hlt)
    simpa [Nat.add_comm] using hover

/-- Of a conditional, jumps lead to the guard of the first arm. Behind the guard is the body of
the arm, from which the rest of the flow is run, and behind the body are the other arms. -/
theorem Placed.guard {condition : Option Code} {body rest : Flow} {arms : Cascade}
    {behind : List Flow}
    (h : Placed code stop position (.conditional (.arm condition body arms) rest :: behind)) :
    ∃ start guard length, Hops code position start ∧ Stands code start guard ∧
      ControlFlow.Guards condition length guard ∧ guard.length + length < 2 ^ 24 ∧
      Placed code stop (start + guard.length) (body :: rest :: behind) ∧
      Placed code stop (start + guard.length + length) (.conditional arms rest :: behind) := by
  obtain ⟨start, flat, hhops, hflat, hlt, hstands, hbehind⟩ := h
  simp only [Flow.flatten, Cascade.flatten, except_bind_eq_ok, pure, Except.pure,
    Except.ok.injEq] at hflat
  obtain ⟨_, ⟨words, hbody, others, hothers, rfl⟩, block, hblock, tail, htail, rfl⟩ := hflat
  obtain ⟨last, hlast⟩ := ControlFlow.exists_conditional_eq others
  obtain ⟨guard, leave, hcode, hguard, hleave⟩ :=
    ControlFlow.conditional_cons_eq ⟨condition, words⟩ hlast
  cases hcode.symm.trans hblock
  rw [List.append_assoc, List.append_assoc, List.append_assoc] at hstands
  have hleft : Stands code (start + guard.length) words := hstands.right.left
  have hright : Stands code (start + guard.length + words.length) (leave ++ (last ++ tail)) :=
    hstands.right.right
  have hlater := hright
  rw [← List.append_assoc] at hlater
  simp only [List.length_append] at hlt hbehind
  -- The rest of the flow stands behind all arms, where the jump at the end of the body leads.
  have hrest : Placed code stop (start + guard.length + words.length + (leave ++ last).length)
      (rest :: behind) := by
    refine ⟨_, tail, .here _, htail, by omega, hlater.right, ?_⟩
    convert hbehind using 1
    simp
    omega
  refine ⟨start, guard, (words ++ leave).length, hhops, hstands.left, hguard, ?_, ?_, ?_⟩
  · simp
    omega
  · refine ⟨_, words, .here _, hbody, by omega, hleft, hrest.hop (hleave.hops ?_ hlater.left)⟩
    simp
    omega
  · refine ⟨_, last ++ tail, .here _, ?_, ?_, ?_, ?_⟩
    · simp [Flow.flatten, hothers, hlast, htail, bind, Except.bind, pure, Except.pure]
    · simp
      omega
    · convert hright.right using 1
      simp
      omega
    · convert hbehind using 1
      simp
      omega

theorem Advances.conditional {arms : Cascade} {rest : Flow} {behind : List Flow}
    (hplaced : Placed code stop position (.conditional arms rest :: behind))
    (hregular : ∀ flow ∈ Flow.conditional arms rest :: behind, flow.Regular host)
    (memory : List ν × ω) :
    Advances host code stop position (.conditional arms rest :: behind) memory := by
  simp only [List.mem_cons, forall_eq_or_imp, Flow.Regular] at hregular
  obtain ⟨⟨hregularArms, hregularRest⟩, hothers⟩ := hregular
  cases arms with
  | done =>
      obtain ⟨start, flat, hhops, hflat, hlt, hstands, hbehind⟩ := hplaced
      have hrest : rest.flatten = .ok flat := by
        simpa [Flow.flatten, Cascade.flatten, except_bind_eq_ok, pure, Except.pure,
          ControlFlow.conditional] using hflat
      -- No arm is left. Nothing is run, but what is to be run gets lighter.
      refine ⟨[], rest :: behind, memory, 0, position, rfl, rfl,
        ⟨start, flat, hhops, hrest, hlt, hstands, hbehind⟩, ?_, Or.inr ?_⟩
      · simpa using ⟨hregularRest, hothers⟩
      · simp [Flow.weight]
  | arm condition body arms =>
      obtain ⟨start, guard, length, hhops, hstands, hguard, hlt, hbody, helse⟩ := hplaced.guard
      obtain ⟨hcondition, hregularBody, hregularElse⟩ := hregularArms
      cases condition with
      | none =>
          cases hguard
          refine ⟨[], body :: rest :: behind, memory, 0, position, rfl, rfl, hbody.hop hhops, ?_,
            Or.inr ?_⟩
          · simpa using ⟨hregularBody, hregularRest, hothers⟩
          · simp [Flow.weight]
            omega
      | some c =>
          obtain ⟨w, rfl, hw⟩ := hguard
          simp only [List.length_append, List.length_cons, List.length_nil] at hlt hbody helse
          replace hcondition := hcondition c rfl
          obtain ⟨value, world, hleaves⟩ := hcondition.2.2 memory.1 memory.2
          obtain ⟨count, hcount⟩ := hhops.run host memory
          have hrun := run_steps_append hcount (hcondition.run hstands hleaves)
          rw [List.nil_append] at hrun
          -- At zero the other arms come next, and otherwise the body of this one.
          cases hzero : host.isZero value with
          | true =>
              rw [hzero, if_pos rfl] at hrun
              have hover : Hops code (start + c.length + 1)
                  (start + c.length + 1 + (length + 1)) :=
                .past hstands.right.tail.get_elem? (hw (by omega))
              refine ⟨[c], .conditional arms rest :: behind, (memory.1, world),
                count + (c.length + 1), start + c.length + 1, ?_, by simpa using hrun, ?_, ?_,
                Or.inl (by omega)⟩
              · simp [Flow.next, hleaves, hzero]
              · refine Placed.hop ?_ hover
                convert helse using 1
                omega
              · simpa [Flow.Regular] using ⟨⟨hregularElse, hregularRest⟩, hothers⟩
          | false =>
              rw [hzero, if_neg Bool.false_ne_true] at hrun
              refine ⟨[c], body :: rest :: behind, (memory.1, world), count + (c.length + 1),
                start + c.length + 2, ?_, by simpa using hrun, hbody, ?_, Or.inl (by omega)⟩
              · simp [Flow.next, hleaves, hzero]
              · simpa using ⟨hregularBody, hregularRest, hothers⟩

/-- Flows that have not ended make a step, and the machine follows. -/
theorem Placed.step {flow : Flow} {behind : List Flow}
    (hplaced : Placed code stop position (flow :: behind))
    (hregular : ∀ f ∈ flow :: behind, f.Regular host) (memory : List ν × ω) :
    Advances host code stop position (flow :: behind) memory := by
  cases flow with
  | done =>
      obtain ⟨start, flat, hhops, hflat, -, -, hbehind⟩ := hplaced
      cases hflat
      refine ⟨[], behind, memory, 0, position, rfl, rfl, hbehind.hop hhops, ?_, Or.inr ?_⟩
      · exact fun f hf => hregular f (List.mem_cons_of_mem _ hf)
      · simp [Flow.weight]
  | fragment fragment rest => exact .fragment hplaced hregular memory
  | conditional arms rest => exact .conditional hplaced hregular memory
  | loop condition body rest => exact .loop hplaced hregular memory

/-- The machine follows any number of steps. -/
theorem Placed.run {count : Nat} {flows rest : List Flow} {memory final : List ν × ω}
    {trace : List Code} (hplaced : Placed code stop position flows)
    (hregular : ∀ f ∈ flows, f.Regular host)
    (hrun : runSteps (Flow.next host) count (flows, memory) = some (trace, (rest, final))) :
    ∃ last, Reaches (host.next code) ⟨position, memory⟩ trace.flatten ⟨last, final⟩ ∧
      Placed code stop last rest := by
  induction count generalizing flows memory trace position with
  | zero =>
      cases hrun
      exact ⟨position, .refl _, hplaced⟩
  | succ count ih =>
      obtain ⟨first, ⟨flows', between⟩, later, hnext, hlater, rfl⟩ := run_steps_succ_eq_some.1 hrun
      cases flows with
      | nil => cases hnext
      | cons flow behind =>
          obtain ⟨first', rest', after, steps, middle, hnext', hsteps, hplaced', hregular', -⟩ :=
            hplaced.step hregular memory
          cases hnext.symm.trans hnext'
          obtain ⟨last, hreaches, hlast⟩ := ih hplaced' hregular' hlater
          refine ⟨last, ?_, hlast⟩
          rw [List.flatten_append]
          exact Reaches.trans ⟨steps, hsteps⟩ hreaches

/-- Whatever the machine does, flows do as well. The machine makes a number of steps, and leaves
the code only when the flows have ended. -/
theorem Placed.exists_reaches {flows : List Flow} {memory : List ν × ω} {count : Nat}
    {words : Code} {state : MachineState ν ω} (hstop : code[stop]? = none)
    (hplaced : Placed code stop position flows) (hregular : ∀ f ∈ flows, f.Regular host)
    (hrun : runSteps (host.next code) count ⟨position, memory⟩ = some (words, state)) :
    ∃ trace rest final, Reaches (Flow.next host) (flows, memory) trace (rest, final) ∧
      words <+: trace.flatten ∧
      (code[state.position]? = none →
        rest = [] ∧ words = trace.flatten ∧ final = state.memory) := by
  -- Either the machine has fewer steps to go, or it does not move and less of the flows is left.
  induction count using Nat.strong_induction_on generalizing flows memory words position with
  | _ count ihCount =>
  induction hweight : Flow.weight flows using Nat.strong_induction_on
    generalizing flows memory words position with
  | _ weight ihWeight =>
  have hstuck : code[state.position]? = none → host.next code state = none := by
    intro hnone
    simp [Host.next, hnone]
  cases flows with
  | nil =>
      obtain ⟨steps, hsteps⟩ := Hops.run hplaced host memory
      have hend : host.next code ⟨stop, memory⟩ = none := by simp [Host.next, hstop]
      have hle : count ≤ steps := by
        by_contra hlt
        obtain ⟨tail, htail, -⟩ := run_steps_of_le (by omega) hrun hsteps
        have := run_steps_of_stuck hend htail
        omega
      obtain ⟨tail, htail, hnil⟩ := run_steps_of_le hle hsteps hrun
      obtain ⟨rfl, rfl⟩ := List.append_eq_nil_iff.1 hnil.symm
      refine ⟨[], [], memory, .refl _, List.nil_prefix, fun hnone => ⟨rfl, rfl, ?_⟩⟩
      rw [run_steps_of_stuck (hstuck hnone) htail] at htail
      cases htail
      rfl
  | cons flow behind =>
      obtain ⟨trace, rest, after, steps, last, hnext, hsteps, hplaced', hregular', hless⟩ :=
        hplaced.step hregular memory
      have hfirst : Reaches (Flow.next host) (flow :: behind, memory) trace (rest, after) :=
        ⟨1, by simp [runSteps, hnext]⟩
      by_cases hle : steps ≤ count
      · obtain ⟨tail, htail, rfl⟩ := run_steps_of_le hle hrun hsteps
        have hlater : ∃ trace' rest' final,
            Reaches (Flow.next host) (rest, after) trace' (rest', final) ∧
              tail <+: trace'.flatten ∧ (code[state.position]? = none →
                rest' = [] ∧ tail = trace'.flatten ∧ final = state.memory) := by
          by_cases hzero : steps = 0
          · subst hzero
            exact ihWeight _ (hweight ▸ hless.resolve_left (by omega)) hplaced' hregular' htail rfl
          · exact ihCount _ (by omega) hplaced' hregular' htail
        obtain ⟨trace', rest', final, hreaches, hprefix, hend⟩ := hlater
        refine ⟨trace ++ trace', rest', final, hfirst.trans hreaches, ?_, fun hnone => ?_⟩
        · rw [List.flatten_append]
          exact (List.prefix_append_right_inj _).2 hprefix
        · obtain ⟨hrest, htrace, hfinal⟩ := hend hnone
          exact ⟨hrest, by rw [htrace, List.flatten_append], hfinal⟩
      · obtain ⟨tail, htail, htrace⟩ := run_steps_of_le (by omega) hsteps hrun
        refine ⟨trace, rest, after, hfirst, ⟨tail, htrace.symm⟩, fun hnone => ?_⟩
        have := run_steps_of_stuck (hstuck hnone) htail
        omega

end Step

/-! ### The flat code does what the flow does -/

mutual
/-- Regular flows have flat code. -/
theorem Flow.exists_flatten_eq {host : Host ν ω} :
    ∀ {flow : Flow}, flow.Regular host → ∃ flat, flow.flatten = .ok flat
  | .done, _ => ⟨[], rfl⟩
  | .fragment code rest, h => by
    obtain ⟨tail, htail⟩ := Flow.exists_flatten_eq h.2
    exact ⟨code ++ tail, by rw [Flow.flatten, htail]; rfl⟩
  | .conditional arms rest, h => by
    obtain ⟨flatArms, harms⟩ := Cascade.exists_flatten_eq h.1
    obtain ⟨tail, htail⟩ := Flow.exists_flatten_eq h.2
    obtain ⟨block, hblock⟩ := ControlFlow.exists_conditional_eq flatArms
    exact ⟨block ++ tail, by simp only [Flow.flatten, harms, htail, hblock, bind, Except.bind]; rfl⟩
  | .loop condition body rest, h => by
    obtain ⟨words, hwords⟩ := Flow.exists_flatten_eq h.2.1
    obtain ⟨tail, htail⟩ := Flow.exists_flatten_eq h.2.2
    obtain ⟨guard, back, hblock, -⟩ := ControlFlow.loop_eq h.1.1 words
    exact ⟨_ ++ tail, by simp only [Flow.flatten, hwords, htail, hblock, bind, Except.bind]; rfl⟩

/-- The arms of regular conditionals have flat bodies. -/
theorem Cascade.exists_flatten_eq {host : Host ν ω} :
    ∀ {arms : Cascade}, arms.Regular host → ∃ flat, arms.flatten = .ok flat
  | .done, _ => ⟨[], rfl⟩
  | .arm condition body rest, h => by
    obtain ⟨code, hcode⟩ := Flow.exists_flatten_eq h.2.1
    obtain ⟨tail, htail⟩ := Cascade.exists_flatten_eq h.2.2
    exact ⟨⟨condition, code⟩ :: tail, by simp only [Cascade.flatten, hcode, htail]; rfl⟩
end

/-- The words do what the flow does, wherever they stand. -/
structure Flow.DoneBy (flow : Flow) (host : Host ν ω) (flat : Code) : Prop where
  /-- The machine executes the fragments of every run of the flow, one after the other, and is
  behind the words when the flow has ended. -/
  follows : ∀ before after memory trace rest final,
    Reaches (Flow.next host) ([flow], memory) trace (rest, final) →
      ∃ position,
        Reaches (host.next (before ++ flat ++ after)) ⟨before.length, memory⟩ trace.flatten
          ⟨position, final⟩ ∧
        (rest = [] → position = before.length + flat.length)
  /-- The machine executes nothing else, and does not get to behind the words before the flow has
  ended. -/
  adds_nothing : ∀ memory words state, Reaches (host.next flat) ⟨0, memory⟩ words state →
    ∃ trace rest final, Reaches (Flow.next host) ([flow], memory) trace (rest, final) ∧
      words <+: trace.flatten ∧
      (state.position = flat.length →
        rest = [] ∧ words = trace.flatten ∧ final = state.memory)

/-- The flat code of a regular flow does what the flow does, provided that all distances fit the
field of a jump. -/
theorem Flow.exists_flatten_done_by {host : Host ν ω} {flow : Flow} (hregular : flow.Regular host) :
    ∃ flat, flow.flatten = .ok flat ∧ (flat.length < 2 ^ 24 → flow.DoneBy host flat) := by
  obtain ⟨flat, hflat⟩ := Flow.exists_flatten_eq hregular
  have hall : ∀ f ∈ [flow], f.Regular host := by simpa using hregular
  refine ⟨flat, hflat, fun hlt => ⟨?_, ?_⟩⟩
  · intro before after memory trace rest final hreaches
    have hplaced : Placed (before ++ flat ++ after) (before.length + flat.length) before.length
        [flow] :=
      ⟨_, flat, .here _, hflat, hlt, ⟨before, after, rfl, rfl⟩, .here _⟩
    obtain ⟨count, hcount⟩ := hreaches
    obtain ⟨last, hlast, hrest⟩ := hplaced.run hall hcount
    by_cases hend : rest = []
    · subst hend
      obtain ⟨steps, hsteps⟩ := Hops.run hrest host final
      exact ⟨_, by simpa using hlast.trans ⟨steps, hsteps⟩, fun _ => rfl⟩
    · exact ⟨last, hlast, fun h => absurd h hend⟩
  · intro memory words state hreaches
    have hplaced : Placed flat flat.length 0 [flow] :=
      ⟨0, flat, .here _, hflat, hlt, ⟨[], [], by simp, rfl⟩,
        by simpa [Placed] using Hops.here flat.length⟩
    obtain ⟨count, hcount⟩ := hreaches
    obtain ⟨trace, rest, final, htrace, hprefix, hend⟩ :=
      hplaced.exists_reaches (by simp) hall hcount
    exact ⟨trace, rest, final, htrace, hprefix, fun hlast => hend (by simp [hlast])⟩

/-- A host whose conditions count the world down. -/
def countdownHost : Host Nat Nat where
  exec w memory :=
    if w = Assembly.op .getSecondsPassed then (memory.2 :: memory.1, memory.2 - 1) else memory
  isZero value := value == 0

/-- A loop around a conditional. The first arm has an empty body, and the last one is dead. -/
def countdown : Flow :=
  .loop [Assembly.op .getSecondsPassed]
    (.conditional
      (.arm (some [Assembly.op .getSecondsPassed]) .done
        (.arm none (.fragment [Assembly.op .stopScript] .done)
          (.arm none (.fragment [Assembly.op .getDistance] .done) .done)))
      (.fragment [] .done))
    .done

theorem countdown_done_by : countdown.Regular countdownHost ∧
    ∃ flat, countdown.flatten = .ok flat ∧
      (flat.length < 2 ^ 24 → countdown.DoneBy countdownHost flat) := by
  have hcondition : IsCondition countdownHost [Assembly.op .getSecondsPassed] :=
    ⟨by simp, straight_op rfl, fun stack world => ⟨world, world - 1, rfl⟩⟩
  have hregular : countdown.Regular countdownHost := by
    refine ⟨hcondition, ⟨⟨?_, trivial, ?_, ?_⟩, ?_, trivial⟩, trivial⟩
    · rintro c ⟨⟩
      exact hcondition
    · simp
    · exact ⟨⟨straight_op rfl, trivial⟩, ⟨by simp, ⟨straight_op rfl, trivial⟩, trivial⟩⟩
    · simp [Straight]
  exact ⟨hregular, Flow.exists_flatten_done_by hregular⟩

end QuestScript
