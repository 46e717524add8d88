import QuestScript.Reading.Scan

/-!
# Optional readings

A reader may be told that what it reads is optional. As long as it has taken nothing it then
hands back what it cannot use, instead of reporting it.
-/

namespace QuestScript

/-- The problem with a token that nobody can use. -/
def Problem.ofToken : Token → Problem
  | .int _ => .unexpectedInteger
  | .float _ => .unexpectedFloat
  | .name _ => .unexpectedName
  | .keyword _ => .unexpectedKeyword
  | .special _ => .unexpectedSpecial
  | .comment _ | .endOfText => .unexpectedToken

/-- How far an optional reading has come. -/
structure Progress where
  /-- Nothing has to be read at all. -/
  optional : Bool := false
  /-- Nothing has been taken yet. -/
  empty : Bool := true
  deriving DecidableEq, Inhabited

namespace Reading

variable {n : Nat} {σ : Type}

/-- Reports a token that nobody can use, and stops. -/
def refuse (token : Token) (location : Location) : Reading n σ Verdict :=
  fail (.ofToken token) location

end Reading

namespace Progress

variable {n : Nat} {σ : Type}

/-- Notes that something has been taken. -/
def start (progress : Progress) : Progress :=
  { progress with empty := false }

/-- Hands a token back or reports it. -/
def refuse (progress : Progress) (token : Token) (location : Location) : Reading n σ Verdict :=
  if progress.optional && progress.empty then pure (.handBack token)
  else Reading.refuse token location

end Progress

end QuestScript
