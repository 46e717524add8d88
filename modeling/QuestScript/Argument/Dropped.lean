import QuestScript.Reading.Progress

/-!
# Dropped arguments

An argument that is accepted and then ignored: a number, possibly negated, or a name.
-/

namespace QuestScript

/-- An argument to drop, as far as it has been read. -/
structure DroppedArgument where
  progress : Progress := {}
  /-- A minus sign has been read. -/
  negated : Bool := false
  /-- Where the argument starts. -/
  location : Location := {}
  deriving DecidableEq, Inhabited

namespace DroppedArgument

variable {n : Nat}

/-- Takes a token; the first one gives the place. -/
def accept (argument : DroppedArgument) (location : Location) : DroppedArgument :=
  { argument with
    progress := argument.progress.start
    location := if argument.progress.empty then location else argument.location }

/-- Takes one token. -/
def feed (token : Token) (location : Location) : Reading n DroppedArgument Verdict := do
  let argument ← get
  match token with
  | .int _ | .float _ =>
    set (argument.accept location)
    pure .done
  | .name _ =>
    if argument.negated then argument.progress.refuse token location
    else
      set (argument.accept location)
      pure .done
  | .special .minus =>
    if argument.negated then argument.progress.refuse token location
    else
      set { argument.accept location with negated := true }
      pure .more
  | _ => argument.progress.refuse token location

/-- Reads a dropped argument. -/
def scan (env : Environment) : Reading n DroppedArgument Unit :=
  Reading.scan env (fun _ => false) fun _ _ => feed

end DroppedArgument

end QuestScript
