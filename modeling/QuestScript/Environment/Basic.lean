import QuestScript.Dictionary
import QuestScript.Extension

/-!
# The environment of a script

A script is compiled against what the host knows: object ids, global variables, the member
variables of other scripts, and the host's functions and instructions. All names are in lower
case.
-/

namespace QuestScript

/-- The member variables of one script. -/
structure MemberTable where
  reference : Bool := true
  types : List (String × ValueType) := []
  deriving DecidableEq, Inhabited

/-- What scripts are compiled against. -/
structure Environment where
  canDeclareLocals : Bool := true
  ids : List String := []
  globals : List (String × ValueType) := []
  members : List (String × MemberTable) := []
  extensions : Registry := {}
  deriving DecidableEq, Inhabited

namespace Environment

/-- The name is the id of an object. -/
def isId (env : Environment) (name : String) : Bool :=
  env.ids.contains name

/-- The type of a global variable. -/
def globalType? (env : Environment) (name : String) : Option ValueType :=
  env.globals.lookup name

/-- The type of the member `name` of the script of `id`, and whether `id` is an object rather
than a global script. -/
def memberType? (env : Environment) (name id : String) : Option (ValueType × Bool) := do
  let table ← env.members.lookup id
  let type ← table.types.lookup name
  pure (type, table.reference)

end Environment

end QuestScript
