import QuestScript.Assembly

/-!
# Control flow

Blocks become flat code with relative jumps.
-/

namespace QuestScript

/-- One arm of a conditional block. The arm behind `else` has no condition. -/
structure Arm where
  condition : Option Code
  body : Code
  deriving DecidableEq, Inhabited

namespace ControlFlow

/-- Code that is passed over if the condition, when there is one, leaves zero. -/
def guarded (condition : Option Code) (body : Code) : Except Defect Code :=
  match condition with
  | none => .ok body
  | some condition => do
    let guard ← (Assembly.jumpOnZero (body.length + 1)).toExcept
    pure (condition ++ guard ++ body)

/-- The code of a conditional block. Every arm but the last one ends with a jump behind the
block. -/
def conditional : List Arm → Except Defect Code
  | [] => .ok []
  | [arm] => guarded arm.condition arm.body
  | arm :: rest => do
    let tail ← conditional rest
    let leave ← (Assembly.jump (tail.length + 1)).toExcept
    pure ((← guarded arm.condition (arm.body ++ leave)) ++ tail)

/-- The code of a loop: the condition, a guard, the body and a jump back to the condition. A loop
whose condition could not be read has no code. -/
def loop (condition body : Code) : Except Defect Code :=
  if condition.isEmpty then .ok []
  else do
    let probe ← (Assembly.jump (-(body.length + condition.length))).toExcept
    let guard ← (Assembly.jumpOnZero (body.length + probe.length + 1)).toExcept
    let back ← (Assembly.jump (-(body.length + condition.length + guard.length))).toExcept
    if probe.length = back.length then pure (condition ++ guard ++ body ++ back)
    else .error .loopSizeMismatch

end ControlFlow

end QuestScript
