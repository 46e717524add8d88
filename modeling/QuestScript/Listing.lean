import QuestScript.Binary32.Decimal
import QuestScript.Program
import QuestScript.Text.Quoted

/-!
# Listings

A listing shows the words of a program with their meaning, and then its literals.
-/

namespace QuestScript.Listing

/-- The index in front of a line, at least five characters wide. -/
def index (n : Nat) : String :=
  let digits := toString n
  String.ofList (List.replicate (5 - digits.length) ' ') ++ digits ++ "  "

/-- The line of a word. -/
def codeLine (n : Nat) (w : Word) : String :=
  let meaning :=
    match Instruction.decode? w with
    | some instruction => instruction.text
    | none => "???"
  index n ++ Text.hexPadded 8 w.toNat ++ "  " ++ meaning ++ "\n"

/-- The lines of a pool under its title, if there are any. -/
def pool (title : String) (items : List String) : String :=
  if items.isEmpty then ""
  else "\n; " ++ title ++ "\n" ++
    String.join (items.mapIdx fun n item => index n ++ item ++ "\n")

/-- The listing of a program. -/
def ofProgram (program : Program) : String :=
  "; " ++ program.name ++ "\n" ++
    "; code words: " ++ toString program.code.length ++ "\n" ++
    String.join (program.code.mapIdx codeLine) ++
    pool "integers" (program.literals.integers.map fun n => toString n.toInt) ++
    pool "floats" (program.literals.floats.map Binary32.listed) ++
    pool "strings" (program.literals.strings.map Text.quoted)

end QuestScript.Listing
