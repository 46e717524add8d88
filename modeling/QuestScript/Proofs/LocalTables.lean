import QuestScript.Compile
import QuestScript.Proofs.Custody.Body
import QuestScript.Proofs.LowerCase

/-!
# The tables of local variables

A name is declared only if no variable has it yet. So a table of local variables stays orderly
(`Locals.Orderly`): no two variables have the same name, and all names are in lower case. In an
orderly table each number stands for one variable, and tables only grow, so it stands for the same
variable ever after (`console_slots_stable`). This holds for all console input that shares its local
variables, whatever else becomes of it, and for all code that has been made of it.

The table of a script can also be collected without compiling the script, but not where the name of
the script is a name only to the compiler (`door_breaks_outline`).
-/

namespace QuestScript

open Reading

/-! ### Orderly tables -/

namespace Locals

variable {table larger : Locals} {name : String} {type other : ValueType} {index : Nat}

/-- The names of all types. -/
def all (table : Locals) : List String :=
  table.shorts ++ table.longs ++ table.floats

/-- The variable with this number among those of its type has this name. -/
def Denotes (table : Locals) (type : ValueType) (index : Nat) (name : String) : Prop :=
  (table.names type)[index]? = some name

/-- No two variables have the same name, and all names are in lower case. -/
structure Orderly (table : Locals) : Prop where
  nodup : table.all.Nodup
  small : ∀ name ∈ table.all, Text.toLower name = name

theorem mem_all : name ∈ table.all ↔ ∃ type, name ∈ table.names type := by
  constructor
  · intro h
    rcases List.mem_append.1 h with h | h
    · rcases List.mem_append.1 h with h | h
      · exact ⟨.short, h⟩
      · exact ⟨.long, h⟩
    · exact ⟨.float, h⟩
  · rintro ⟨type, h⟩
    cases type with
    | short => exact List.mem_append_left _ (List.mem_append_left _ h)
    | long => exact List.mem_append_left _ (List.mem_append_right _ h)
    | float => exact List.mem_append_right _ h

theorem has_iff : table.has type name = true ↔ name ∈ table.names type := by
  simp [has, indexAs?, List.findIdx?_isSome]

theorem type_of?_eq_none_iff : table.typeOf? name = none ↔ name ∉ table.all := by
  rw [typeOf?, List.find?_eq_none, mem_all, not_exists]
  simp only [has_iff]
  constructor
  · intro h type
    exact h type (by cases type <;> decide)
  · intro h type _
    exact h type

theorem has_of_type_of? (h : table.typeOf? name = some type) : table.has type name = true := by
  have hhas := List.find?_some h
  exact hhas

namespace Denotes

theorem mem_names (h : table.Denotes type index name) : name ∈ table.names type :=
  List.mem_of_getElem? h

/-- In a larger table the variable has the same number. -/
theorem within (h : table.Denotes type index name) (hwithin : table.Within larger) :
    larger.Denotes type index name := by
  obtain ⟨added, hadded⟩ := hwithin type
  rw [Denotes, ← hadded, List.getElem?_append_left (List.getElem?_eq_some_iff.1 h).1]
  exact h

end Denotes

/-- The number of a variable stands for it. -/
theorem denotes_of_type_of? (h : table.typeOf? name = some type) :
    ∃ index, table.indexOf? name = some index ∧ table.Denotes type index name := by
  obtain ⟨index, hindex⟩ := Option.isSome_iff_exists.1 (has_of_type_of? h)
  refine ⟨index, by simp [indexOf?, h, hindex], ?_⟩
  obtain ⟨hlt, hname, -⟩ := List.findIdx?_eq_some_iff_getElem.1 hindex
  rw [Denotes, List.getElem?_eq_getElem hlt, beq_iff_eq.1 hname]

namespace Orderly

theorem empty : Orderly {} :=
  ⟨List.nodup_nil, by rintro _ ⟨⟩⟩

theorem nodup_names (h : table.Orderly) (type : ValueType) : (table.names type).Nodup := by
  obtain ⟨hfront, hfloats, -⟩ := List.nodup_append.1 h.nodup
  obtain ⟨hshorts, hlongs, -⟩ := List.nodup_append.1 hfront
  cases type with
  | short => exact hshorts
  | long => exact hlongs
  | float => exact hfloats

/-- A name has one type. -/
theorem type_unique (h : table.Orderly) (hname : name ∈ table.names type)
    (hother : name ∈ table.names other) : type = other := by
  obtain ⟨hfront, -, hfloat⟩ := List.nodup_append.1 h.nodup
  obtain ⟨-, -, hlong⟩ := List.nodup_append.1 hfront
  have hshortLong : name ∈ table.shorts → name ∉ table.longs :=
    fun hshort h => hlong name hshort name h rfl
  have hshortFloat : name ∈ table.shorts → name ∉ table.floats :=
    fun hshort h => hfloat name (List.mem_append_left _ hshort) name h rfl
  have hlongFloat : name ∈ table.longs → name ∉ table.floats :=
    fun hlong h => hfloat name (List.mem_append_right _ hlong) name h rfl
  cases type <;> cases other <;> simp_all [names]

/-- The variable that a number stands for is found under its name. -/
theorem lookup_of_denotes (h : table.Orderly) (hdenotes : table.Denotes type index name) :
    table.typeOf? name = some type ∧ table.indexOf? name = some index := by
  have hmem := hdenotes.mem_names
  cases htype : table.typeOf? name with
  | none => exact absurd (mem_all.2 ⟨type, hmem⟩) (type_of?_eq_none_iff.1 htype)
  | some found =>
      obtain rfl : found = type := h.type_unique (has_iff.1 (has_of_type_of? htype)) hmem
      obtain ⟨index', hindex', hdenotes'⟩ := denotes_of_type_of? htype
      refine ⟨rfl, ?_⟩
      rw [hindex']
      have hlt := (List.getElem?_eq_some_iff.1 hdenotes').1
      exact congrArg some ((List.getElem?_inj hlt (h.nodup_names found)).1
        (hdenotes'.trans hdenotes.symm))

/-- A new name may be declared. -/
theorem declare (h : table.Orderly) (hnone : table.typeOf? (Text.toLower name) = none)
    (type : ValueType) : (table.declare type (Text.toLower name)).Orderly := by
  have hperm : (table.declare type (Text.toLower name)).all.Perm
      (Text.toLower name :: table.all) := by
    cases type with
    | short =>
        simp only [Locals.declare, all, Text.to_lower_to_lower, List.append_assoc,
          List.singleton_append]
        exact List.perm_middle
    | long =>
        simp only [Locals.declare, all, Text.to_lower_to_lower, List.append_assoc,
          List.singleton_append]
        rw [← List.append_assoc, ← List.append_assoc]
        exact List.perm_middle
    | float =>
        simp only [Locals.declare, all, Text.to_lower_to_lower, ← List.append_assoc]
        exact List.perm_append_singleton _ _
  refine ⟨?_, fun other hother => ?_⟩
  · rw [hperm.nodup_iff]
    exact List.nodup_cons.2 ⟨type_of?_eq_none_iff.1 hnone, h.nodup⟩
  · rcases List.mem_cons.1 (hperm.mem_iff.1 hother) with rfl | hother
    · exact Text.to_lower_to_lower name
    · exact h.small other hother

end Orderly

/-- In a larger table that is orderly a variable has the same type and number. -/
theorem Within.lookup_eq (hwithin : table.Within larger) (hlarger : larger.Orderly)
    (h : table.typeOf? name = some type) :
    larger.typeOf? name = some type ∧ larger.indexOf? name = table.indexOf? name := by
  obtain ⟨index, hindex, hdenotes⟩ := denotes_of_type_of? h
  rw [hindex]
  exact hlarger.lookup_of_denotes (hdenotes.within hwithin)

end Locals

/-! ### The custody of a table -/

/-- The local variables are orderly, and code accesses only variables of the given table. Nothing is
said any more once there is a variable that is not in the table. -/
def tableCustody (env : Environment) (table : Locals) : Custody env where
  holds _ s := s.locals.Orderly ∧ s.locals.Within table
  broken s := ¬s.locals.Within table
  tracked := env.extensions.Built
  allowed type index := ∃ name, table.Denotes type index name
  defects _ := True
  congr h _ _ hlocals := by rwa [hlocals]
  broken_congr h hlocals := by rwa [hlocals]
  broken_of_precedes h hprecedes hwithin := h (hprecedes.locals.trans hwithin)
  release h := h
  pull h := h
  putBack h _ _ := h
  redeliver h _ := h
  declare {_ s name} type h hnone := by
    by_cases hwithin : (s.locals.declare type (Text.toLower name)).Within table
    · exact Or.inr ⟨h.1.declare hnone type, hwithin⟩
    · exact Or.inl hwithin
  allowed_of_holds {_ _ name _} h htype := by
    obtain ⟨index, hindex, hdenotes⟩ := Locals.denotes_of_type_of? htype
    rw [hindex]
    exact ⟨name, hdenotes.within h.2⟩
  built h := h
  regular := Custody.regular_or_all

/-! ### Console input -/

/-- Console input, with the environment and the log that it is compiled with. -/
structure ConsoleInput where
  env : Environment
  source : String
  log : Log := {}

/-- Compiles console input that shares the local variables. -/
def ConsoleInput.compile (input : ConsoleInput) (locals : Locals) : Compilation Program :=
  compileConsole input.env input.source input.log locals

/-- The local variables behind console input, at first there are none. -/
def localsAfter (inputs : List ConsoleInput) : Locals :=
  inputs.foldl (fun locals input => (input.compile locals).locals) {}

/-- However the reading of a body ends, the local variables are orderly. Its code accesses only
local variables that there are, if the operations of the host have been registered one by one. -/
theorem Body.orderly_scan (env : Environment) {s : Session} (h : s.locals.Orderly) :
    let r := runOn (fun _ => scan env) { ends := false } s
    r.session.locals.Orderly ∧ s.locals.Within r.session.locals ∧
      (env.extensions.Built → r.outcome = .ok () → AccessesOnly (fun type index => ∃ name,
        r.session.locals.Denotes type index name) r.reader.code) := by
  intro r
  have hwithin : s.locals.Within r.session.locals :=
    ((scan env).precedes_run { ends := false } s (Nat.le_refl _)).locals
  have hscan : (tableCustody env r.session.locals).Keeps (scan env : Reading s.unread Body Unit)
      { ends := false } false _ := scan_custody trivial .nil
  have hleaves : (tableCustody env r.session.locals).Leaves _ Custody.Anyhow r :=
    hscan s (Nat.le_refl _) ⟨h, hwithin⟩
  generalize r = r at hleaves hwithin ⊢
  cases hleaves with
  | broken hbroken => exact absurd (.refl _) hbroken
  | ok hcode ht => exact ⟨ht.1, hwithin, fun hbuilt _ => hcode hbuilt⟩
  | source _ ht => exact ⟨ht.1, hwithin, by rintro _ ⟨⟩⟩
  | stopped _ _ ht => exact ⟨ht.1, hwithin, by rintro _ ⟨⟩⟩

/-- The local variables stay orderly, whatever becomes of the input, and code accesses only local
variables that there are, beside the operations that the host has registered. -/
theorem ConsoleInput.orderly_compile (input : ConsoleInput) {locals : Locals}
    (h : locals.Orderly) :
    (input.compile locals).locals.Orderly ∧ locals.Within (input.compile locals).locals ∧
      (input.env.extensions.Built → ∀ program, (input.compile locals).outcome = .ok program →
        AccessesOnly (fun type index => ∃ name,
          (input.compile locals).locals.Denotes type index name) program.code) := by
  let s : Session := { scanner := .ofText (input.source ++ "\n"), log := input.log, locals }
  obtain ⟨horderly, hwithin, hcode⟩ := Body.orderly_scan input.env (s := s) h
  refine ⟨horderly, hwithin, fun hbuilt program hprogram => ?_⟩
  cases houtcome : (runOn (fun _ => Body.scan input.env) { ends := false } s).outcome with
  | error reason =>
      rw [compile, compileConsole, Compilation.ofResult, houtcome] at hprogram
      cases hprogram
  | ok _ =>
      rw [compile, compileConsole, Compilation.ofResult, houtcome] at hprogram
      cases hprogram
      exact hcode hbuilt houtcome

theorem locals_after_append (earlier later : List ConsoleInput) :
    localsAfter (earlier ++ later) =
      later.foldl (fun locals input => (input.compile locals).locals) (localsAfter earlier) :=
  List.foldl_append

/-- Tables stay orderly and only grow. -/
theorem orderly_foldl (inputs : List ConsoleInput) {locals : Locals} (h : locals.Orderly) :
    let after := inputs.foldl (fun locals input => (input.compile locals).locals) locals
    after.Orderly ∧ locals.Within after := by
  induction inputs generalizing locals with
  | nil => exact ⟨h, .refl _⟩
  | cons input inputs ih =>
      obtain ⟨horderly, hwithin, -⟩ := input.orderly_compile h
      exact ⟨(ih horderly).1, hwithin.trans (ih horderly).2⟩

/-- The name of a script may have a point in front of a digit, but no token starts like that where
the local variables are collected without compiling the script. -/
theorem door_breaks_outline :
    let source := "begin door.2nd\nshort open\nend\n"
    (compileScript {} source {}).outcome.map (·.locals) = .ok { shorts := ["open"] } ∧
      (compileScript {} source {}).log.entries = [] ∧
      (scanLocals {} source {}).outcome = .error .source := by
  decide +kernel

end QuestScript
