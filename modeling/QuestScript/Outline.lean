import QuestScript.Declaration

/-!
# Outlines

A quick reading of a script that collects its local variables and passes over everything else.
-/

namespace QuestScript.Outline

variable {n : Nat}

/-- Takes one token at the start of a line. -/
def feed (env : Environment) (token : Token) (location : Location) : Reading n Unit Verdict := do
  match token with
  | .keyword (.builtin .endScript) => pure .done
  | .special .newline => pure .more
  | .keyword word =>
    if (Declaration.typeOfWord? word).isSome then
      let _ ← Reading.nested Declaration.begin (Declaration.readFrom env word location)
    else
      Reading.skipLine env
    pure .more
  | _ =>
    Reading.skipLine env
    pure .more

/-- Reads the declarations of a script up to `end`. -/
def scan (env : Environment) : Reading n Unit Unit :=
  Reading.scan env (fun _ => true) fun _ _ => feed env

end QuestScript.Outline
