import QuestScript.Text.LowerCase
import QuestScript.ValueType

/-!
# Local variables

The local variables of a script are numbered per type in the order of their declarations.
-/

namespace QuestScript

/-- The names of the local variables of each type, in the order of declaration. -/
structure Locals where
  shorts : List String := []
  longs : List String := []
  floats : List String := []
  deriving DecidableEq, Inhabited

namespace Locals

/-- The names of one type. -/
def names (table : Locals) : ValueType → List String
  | .short => table.shorts
  | .long => table.longs
  | .float => table.floats

/-- The number of a variable among those of its type. -/
def indexAs? (table : Locals) (type : ValueType) (name : String) : Option Nat :=
  (table.names type).findIdx? (· == name)

/-- A variable of the given type has this name. -/
def has (table : Locals) (type : ValueType) (name : String) : Bool :=
  (table.indexAs? type name).isSome

/-- The type of a variable. A short hides a long and a long hides a float of the same name. -/
def typeOf? (table : Locals) (name : String) : Option ValueType :=
  [ValueType.short, .long, .float].find? (table.has · name)

/-- The number of a variable among those of its type. -/
def indexOf? (table : Locals) (name : String) : Option Nat := do
  table.indexAs? (← table.typeOf? name) name

/-- A variable with a type has a number in the table of that type. -/
theorem exists_index_of?_eq {table : Locals} {name : String} {type : ValueType}
    (h : table.typeOf? name = some type) :
    ∃ index, table.indexOf? name = some index ∧ index < (table.names type).length := by
  have hhas := List.find?_some h
  obtain ⟨index, hindex⟩ := Option.isSome_iff_exists.1 hhas
  have hlt : index < (table.names type).length := (List.findIdx?_eq_some_iff_getElem.1 hindex).1
  exact ⟨index, by simp [indexOf?, h, hindex], hlt⟩

/-- Adds a variable, in lower case, whether or not the name is in use. -/
def declare (table : Locals) (type : ValueType) (name : String) : Locals :=
  let name := Text.toLower name
  match type with
  | .short => { table with shorts := table.shorts ++ [name] }
  | .long => { table with longs := table.longs ++ [name] }
  | .float => { table with floats := table.floats ++ [name] }

/-- The variables are among those of a larger table, with the same numbers. -/
def Within (table larger : Locals) : Prop :=
  ∀ type, table.names type <+: larger.names type

namespace Within

variable {table middle larger : Locals}

theorem refl (table : Locals) : table.Within table :=
  fun _ => List.prefix_refl _

theorem trans (h : table.Within middle) (h' : middle.Within larger) : table.Within larger :=
  fun type => (h type).trans (h' type)

end Within

theorem within_declare (table : Locals) (type : ValueType) (name : String) :
    table.Within (table.declare type name) := by
  intro other
  cases type <;> cases other <;> simp [declare, names]

/-- The text of the locals file: the three counts on a line, then every name followed by a
blank. -/
def write (table : Locals) : String :=
  s!"{table.shorts.length} {table.longs.length} {table.floats.length}\n" ++
    String.join ((table.shorts ++ table.longs ++ table.floats).map (· ++ " "))

end Locals

end QuestScript
