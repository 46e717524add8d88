import QuestScript.Compile
import QuestScript.Proofs.Blocks
import QuestScript.Proofs.Registry

/-!
# Stack safety of compiled scripts

A script that compiles without errors has code that never finds a wrong stack: at each position
there is one shape of the stack, which fits every way that leads there, and each instruction finds
what it asks for. The stack is empty at the start and at the end.

The main statement is `compile_script_stack_safe`. It needs a host whose registry has been built by
adding entries (`Registry.Built`), and it leaves out two things that a host may do: to call an
instruction `PositionCell`, and to drop an argument in front of one that has to be there.
-/

namespace QuestScript

variable {g : Ending} {atEnd : Bool} {n : Nat} {token : Token} {location : Location}

open Reading (Sound Answers)

/-! ### Registries -/

theorem Registry.Built.admitted {registry : Registry} {keyword : String} {extension : Extension}
    (h : registry.Built) (hentry : registry.Has keyword extension) : extension.Admitted := by
  obtain ⟨-, hadmits⟩ := h.admits hentry
  exact ⟨hadmits _ List.mem_cons_self, fun opcode hopcode => hadmits opcode (by simp [hopcode])⟩

/-! ### Script files -/

namespace ScriptFile

variable {file : ScriptFile} (hc : g.Addressable) (hhost : g.env.extensions.Orderly)

/-- What a script file answers to a token. -/
abbrev Orderly (g : Ending) (token : Token) : Verdict → ScriptFile → Prop :=
  Answers token (fun file => Safe g.toSurroundings file.code)
    fun file => Safe g.toSurroundings file.code

theorem feed_end_name_sound (name : String) (h : Safe g.toSurroundings file.code) :
    Sound g atEnd (feedEndName name location : Reading n ScriptFile Verdict) file
      (Orderly g token) := by
  refine .get ?_
  dsimp only
  split
  · exact .set (.pure h)
  · exact .warn (.set (.pure h))

include hc hhost

theorem read_body_sound :
    Sound g atEnd (readBody g.env : Reading n ScriptFile Verdict) file (Orderly g token) := by
  refine .within (Body.scan_sound hc hhost (.of_carries (.nil []))) ?_ ?_
  · intro _ body hbody
    exact .modify (.of_outcome (fun _ _ => .modify (.pure hbody)) nofun)
  · intro reason body hreason
    refine .modify (.of_outcome nofun fun _ heq => ?_)
    cases heq
    exact hreason

/-- Every token leaves the script file in order. -/
theorem feed_sound (h : Safe g.toSurroundings file.code) :
    Sound g atEnd (feed g.env token location : Reading n ScriptFile Verdict) file
      (Orderly g token) := by
  unfold feed
  refine .get ?_
  split
  · exact .modify (.modify_modes (.pure h))
  · dsimp only
    split
    · exact .warn (.pure h)
    · exact .pure h
  · exact .modify (.pure h)
  · exact .modify (.pure h)
  · exact .warn (.pure h)
  · exact read_body_sound hc hhost
  · exact feed_end_name_sound _ h
  · exact feed_end_name_sound _ h
  · exact .pure h
  · exact .pure h
  · exact .refuse

/-- The code of a script file is safe. -/
theorem scan_sound (h : Safe g.toSurroundings file.code) :
    Sound g atEnd (scan g.env : Reading n ScriptFile Unit) file
      fun _ q => Safe g.toSurroundings q.code :=
  .scan (fun file => Safe g.toSurroundings file.code) hhost.lacksPosition
    (fun _ _ _ _ _ _ _ h => feed_sound hc hhost h) (fun _ _ h => h) h

end ScriptFile

/-! ### Programs -/

/-- A compilation succeeds if its reading does, and then has what is made of the last state. -/
theorem Compilation.outcome_of_result_eq_ok {σ α : Type} {result : Result σ Unit}
    {make : σ → Session → α} {a : α} :
    (Compilation.ofResult result make).outcome = .ok a ↔
      result.outcome = .ok () ∧ make result.reader result.session = a := by
  unfold ofResult
  cases result.outcome <;> simp [Except.map]

/-- What the code of the program is run with. -/
def Program.surroundings (env : Environment) (program : Program) : Surroundings :=
  ⟨env, program.literals, program.locals⟩

/-- Each instruction of the program finds its operands on the stack, whatever way the machine has
taken, and the stack is empty at the start and at the end. -/
def Program.StackSafe (env : Environment) (program : Program) : Prop :=
  Typed (program.surroundings env) program.code [] []

/-- A script that compiles without errors is stack safe, as long as its jumps and indices fit their
fields. -/
theorem compile_script_stack_safe {env : Environment} {source : String} {log : Log}
    {program : Program} (hbuilt : env.extensions.Built)
    (hordered : ∀ keyword extension, env.extensions.Has keyword extension →
      Signature.Ordered extension.arguments)
    (hlacks : env.extensions.LacksPosition) (hdowngrade : log.downgrade = false)
    (hok : (compileScript env source log).outcome = .ok program)
    (herrors : (compileScript env source log).log.errors = log.errors)
    (hcode : program.code.length < 2 ^ 24) (hc : (program.surroundings env).Addressable) :
    program.StackSafe env := by
  have hhost : env.extensions.Orderly :=
    ⟨fun _ _ => hbuilt.function, fun _ _ => hbuilt.instruction, fun _ _ => hbuilt.admitted,
      hordered,
      hlacks⟩
  obtain ⟨hread, rfl⟩ := Compilation.outcome_of_result_eq_ok.1 hok
  let s : Session := { scanner := Scanner.ofText source, log }
  have hsound : Sound (Reading.endingOf env (fun _ => ScriptFile.scan env) {} s) false
      (ScriptFile.scan env : Reading s.unread ScriptFile Unit) {} _ :=
    ScriptFile.scan_sound hc hhost (.of_carries (.nil []))
  exact hsound.run_on rfl hdowngrade herrors hread hcode

/-- A host with an instruction that may be called on an object, with an optional argument. -/
def harvestEnvironment : Environment where
  ids := ["player"]
  extensions :=
    { nextCode := -2
      keywords := [("additem", -1)]
      instructions := [(-1, ⟨none, "c/l", 0x20010, some 0x20011, .three⟩)] }

/-- A loop around a call on an object. -/
def harvestScript : String :=
  "begin harvest\nshort ripe\nwhile ripe\nplayer->additem \"berry\" ripe\nendwhile\nend\n"

/-- What the script is compiled to. -/
def harvestProgram : Program where
  name := "harvest"
  literals := { integers := [1], strings := ["berry", "player"] }
  locals := { shorts := ["ripe"] }
  code := [0, 0xc8000015, 0xc8000019, 0x1000008, 0, 0xc8000015, 0, 0, 0xc8000004, 0xc2001101,
    0x200000a]

theorem harvest_stack_safe :
    (compileScript harvestEnvironment harvestScript {}).outcome = .ok harvestProgram ∧
      harvestProgram.StackSafe harvestEnvironment := by
  have hadd : Registry.addInstruction "AddItem" "c/l" 0x20010 (some 0x20011) {} =
      .ok () harvestEnvironment.extensions := by
    rfl
  have hrun : (compileScript harvestEnvironment harvestScript {}).outcome = .ok harvestProgram ∧
      (compileScript harvestEnvironment harvestScript {}).log.errors = 0 := by
    decide +kernel
  refine ⟨hrun.1, compile_script_stack_safe (.addInstruction .empty hadd) ?_ ?_ rfl hrun.1 hrun.2
    (by decide) ⟨by decide, by decide, by decide, fun type => by cases type <;> decide⟩⟩
  · rintro keyword extension ⟨code, -, hentry | hentry⟩
    · cases hentry
    · rw [Registry.instruction?, harvestEnvironment, lookup_cons_eq_ite] at hentry
      split at hentry <;> cases hentry
      decide
  · intro code hcode
    cases hcode

end QuestScript
