import QuestScript.Body
import QuestScript.Proofs.Statements

/-!
# Blocks leave the stack as it was

The code of a block leaves nothing on the stack, provided that it is short enough for jumps to span
it (`Safe`). While a block is read this holds of its parts (`Block.Parts`): of the bodies of the
arms that are complete and of the body that is being read, whereas each condition leaves one number.
`Typed.conditional` and `Typed.loop` put the parts together.

The main statements are `Block.scan_sound` and, for the statements and blocks of a script,
`Body.scan_sound`.
-/

namespace QuestScript

variable {g : Ending} {atEnd : Bool} {n : Nat} {token : Token} {location : Location}

open Reading (Sound Answers)

namespace Safe

variable {c : Surroundings} {x y : Code}

theorem of_carries (h : Carries c x [] []) : Safe c x :=
  fun _ => h.safe

theorem append (hx : Safe c x) (hy : Safe c y) : Safe c (x ++ y) := by
  intro hlt
  rw [List.length_append] at hlt
  exact (hx (by omega)).append (hy (by omega))

end Safe

namespace Block

variable {block : Block}

/-- The arm or loop that is being read has a condition. -/
def Stage.hasCondition : Stage → Bool
  | .ifEnd | .ifBody | .whileEnd | .whileBody => true
  | _ => false

/-- All that has been read leaves the stack as it should, the condition apart. -/
structure Parts (c : Surroundings) (block : Block) : Prop where
  conditions : ∀ arm ∈ block.arms, ∀ test, arm.condition = some test → Decides c test
  bodies : ∀ arm ∈ block.arms, Safe c arm.body
  body : Safe c block.body
  code : Safe c block.code

/-- All that has been read leaves the stack as it should. -/
structure Settled (c : Surroundings) (block : Block) : Prop extends Parts c block where
  condition : block.stage.hasCondition = true → Decides c block.condition

/-- What a block answers to a token. -/
abbrev Orderly (g : Ending) (token : Token) : Verdict → Block → Prop :=
  Answers token (Settled g.toSurroundings) fun block => Safe g.toSurroundings block.code

theorem parts_of_fresh (c : Surroundings) : Parts c {} where
  conditions := nofun
  bodies := nofun
  body := .of_carries (.nil [])
  code := .of_carries (.nil [])

/-- More code in the body. -/
theorem Settled.extend {c : Surroundings} {code : Code} (h : block.Settled c)
    (hcode : Safe c code) : Settled c { block with body := block.body ++ code } :=
  { h with body := h.body.append hcode }

/-- Goes on to a stage that has a condition only if the last one had. -/
theorem goto_sound {stage : Stage} (h : block.Parts g.toSurroundings)
    (hcondition : stage.hasCondition = true → Decides g.toSurroundings block.condition) :
    Sound g atEnd (goto stage : Reading n Block Verdict) block (Orderly g token) :=
  .modify (.pure ⟨⟨h.conditions, h.bodies, h.body, h.code⟩, hcondition⟩)

/-- The arm that is being read becomes one of the complete ones. -/
theorem close_arm_sound {β : Type} {k : Unit → Reading n Block β} {post : β → Block → Prop}
    (h : block.Settled g.toSurroundings) (hstage : block.stage = .ifBody ∨ block.stage = .elseBody)
    (hk : ∀ q : Block, q.Parts g.toSurroundings → Sound g atEnd (k ()) q post) :
    Sound g atEnd (closeArm >>= k) block post := by
  refine .modify (hk _ ⟨?_, ?_, .of_carries (.nil []), h.code⟩)
  · intro arm harm test htest
    rcases List.mem_append.1 harm with harm | harm
    · exact h.conditions arm harm test htest
    · cases List.mem_singleton.1 harm
      rcases hstage with hstage | hstage
      · simp only [hstage] at htest
        cases htest
        exact h.condition (hstage ▸ rfl)
      · simp only [hstage] at htest
        cases htest
  · intro arm harm
    rcases List.mem_append.1 harm with harm | harm
    · exact h.bodies arm harm
    · cases List.mem_singleton.1 harm
      exact h.body

theorem close_conditional_sound (h : block.Parts g.toSurroundings) :
    Sound g atEnd (closeConditional : Reading n Block Verdict) block (Orderly g token) := by
  refine .get (.of_defect fun code hcode => .set (goto_sound ⟨nofun, nofun, h.body, ?_⟩ nofun))
  exact h.code.append fun hlt => .conditional h.conditions h.bodies hcode hlt

theorem close_loop_sound (h : block.Settled g.toSurroundings) (hstage : block.stage = .whileBody) :
    Sound g atEnd (closeLoop : Reading n Block Verdict) block (Orderly g token) := by
  have hcondition := h.condition (hstage ▸ rfl)
  refine .get (.of_defect fun code hcode =>
    .set (goto_sound ⟨h.conditions, h.bodies, ?_, ?_⟩ nofun))
  · exact .of_carries (.nil [])
  · exact h.code.append fun hlt => .loop hcondition h.body hcode hlt

section Reader

variable (hc : g.Addressable) (hhost : g.env.extensions.Orderly)

include hc hhost

/-- Behind a condition that has been read without an error. -/
theorem read_condition_sound (first : Option (Token × Location)) {behind : Stage} (body : Stage)
    (h : block.Parts g.toSurroundings) :
    Sound g atEnd (readCondition g.env first behind body : Reading n Block Unit) block
      fun _ q => q.Settled g.toSurroundings := by
  have hfresh : Expression.WellTyped g.toSurroundings {} :=
    Expression.well_typed_of_fresh rfl rfl rfl
  refine .modify (.nested (.recover_line (Expression.starting_sound hc hhost first hfresh)) ?_)
  rintro read e ⟨rfl, he⟩
  refine .nested (Expression.finish_sound he) ?_
  rintro ⟨type, condition⟩ _ hcondition
  exact .modify (.pure ⟨⟨h.conditions, h.bodies, h.body, h.code⟩, fun _ => hcondition.decides⟩)

theorem opening_sound (word : Builtin) (first : Option (Token × Location))
    (h : block.Parts g.toSurroundings) :
    Sound g atEnd (opening g.env word location first : Reading n Block Unit) block
      fun _ q => q.Settled g.toSurroundings := by
  have hcondition : Sound g atEnd (if word = .whileBlock then
      readCondition g.env first .whileEnd .whileBody
      else readCondition g.env first .ifEnd .ifBody : Reading n Block Unit) block
      fun _ q => q.Settled g.toSurroundings := by
    split
    · exact read_condition_sound hc hhost first _ h
    · exact read_condition_sound hc hhost first _ h
  unfold opening
  dsimp only
  by_cases hword : word = .elseIf
  · rw [if_pos hword]
    exact .warn hcondition
  · rw [if_neg hword]
    exact hcondition

theorem read_line_sound (hposition : token.IsPosition g.env.extensions location → atEnd = true)
    (h : block.Settled g.toSurroundings) :
    Sound g atEnd (readLine g.env token location : Reading n Block Verdict) block
      (Orderly g token) := by
  refine .nested (Statement.compile_sound hc hhost ?_) ?_
  · rintro _ _ ⟨⟩
    exact hposition
  · rintro ⟨read, code⟩ _ hcode
    exact .modify (.pure (h.extend (.of_carries hcode)))

omit hc in
/-- Reads on behind `else`. -/
theorem pass_else_junk_sound (h : block.Parts g.toSurroundings) :
    Sound g atEnd (passElseJunk g.env : Reading n Block Verdict) block (Orderly g token) := by
  refine .bind (.skip_rest hhost.lacksPosition) fun _ q hq => ?_
  subst hq
  exact goto_sound h nofun

omit hc hhost in
theorem feed_newline_sound (h : block.Settled g.toSurroundings) :
    Sound g atEnd (feedNewline location : Reading n Block Verdict) block
      (Orderly g (.special .newline)) := by
  unfold feedNewline
  refine .get ?_
  split
  next hstage => exact goto_sound h.toParts fun _ => h.condition (hstage ▸ rfl)
  · exact goto_sound h.toParts nofun
  next hstage => exact goto_sound h.toParts fun _ => h.condition (hstage ▸ rfl)
  · exact .pure h
  · exact .pure h
  · exact .pure h
  · exact .pure h.code
  · exact .pure h.code
  · exact .refuse

theorem feed_other_sound (hposition : token.IsPosition g.env.extensions location → atEnd = true)
    (h : block.Settled g.toSurroundings) :
    Sound g atEnd (feedOther g.env token location : Reading n Block Verdict) block
      (Orderly g token) := by
  unfold feedOther
  refine .get ?_
  split
  · exact read_line_sound hc hhost hposition h
  · exact read_line_sound hc hhost hposition h
  · exact read_line_sound hc hhost hposition h
  · exact .warn (pass_else_junk_sound hhost h.toParts)
  · exact pass_else_junk_sound hhost h.toParts
  · exact .refuse

section Nested

/-! A block inside the body is read by a reader of blocks. -/

variable {nested : Reading n Block Unit}
  (hnested : ∀ block : Block, block.Settled g.toSurroundings →
    Sound g atEnd nested block fun _ q => Safe g.toSurroundings q.code)

include hnested

theorem read_nested_sound (word : Builtin) (h : block.Settled g.toSurroundings) :
    Sound g atEnd (readNested g.env nested word location) block (Orderly g token) := by
  refine .nested (.bind (opening_sound hc hhost word none (parts_of_fresh _))
    fun _ q hq => hnested q hq) ?_
  intro _ inner hinner
  exact .modify (.pure (h.extend hinner))

theorem feed_arm_keyword_sound (word : Keyword)
    (hposition : Token.IsPosition g.env.extensions (.keyword word) location → atEnd = true)
    (h : block.Settled g.toSurroundings)
    (hstage : block.stage = .ifBody ∨ block.stage = .elseBody) :
    Sound g atEnd (feedArmKeyword g.env nested word location) block
      (Orderly g (.keyword word)) := by
  unfold feedArmKeyword
  split
  · exact close_arm_sound h hstage fun q hq => close_conditional_sound hq
  · refine close_arm_sound h hstage fun q hq => ?_
    exact .bind (read_condition_sound hc hhost none _ hq) fun _ r hr => .pure hr
  · exact close_arm_sound h hstage fun q hq => goto_sound hq nofun
  · exact read_nested_sound hc hhost hnested .ifBlock h
  · exact read_nested_sound hc hhost hnested .whileBlock h
  · exact read_line_sound hc hhost hposition h

theorem feed_loop_keyword_sound (word : Keyword)
    (hposition : Token.IsPosition g.env.extensions (.keyword word) location → atEnd = true)
    (h : block.Settled g.toSurroundings) (hstage : block.stage = .whileBody) :
    Sound g atEnd (feedLoopKeyword g.env nested word location) block
      (Orderly g (.keyword word)) := by
  unfold feedLoopKeyword
  split
  · exact close_loop_sound h hstage
  · exact read_nested_sound hc hhost hnested .ifBlock h
  · exact read_nested_sound hc hhost hnested .whileBlock h
  · exact read_line_sound hc hhost hposition h

theorem feed_keyword_sound (word : Keyword)
    (hposition : Token.IsPosition g.env.extensions (.keyword word) location → atEnd = true)
    (h : block.Settled g.toSurroundings) :
    Sound g atEnd (feedKeyword g.env nested word location) block (Orderly g (.keyword word)) := by
  have hopening : ∀ opened : Builtin, Sound g atEnd (do
      opening g.env opened location none
      pure .more : Reading n Block Verdict) block (Orderly g (.keyword word)) := fun opened =>
    .bind (opening_sound hc hhost opened none h.toParts) fun _ q hq => .pure hq
  unfold feedKeyword
  refine .get ?_
  split
  · exact hopening .ifBlock
  · exact hopening .elseIf
  · exact hopening .whileBlock
  next hstage => exact feed_arm_keyword_sound hc hhost hnested _ hposition h (Or.inl hstage)
  next hstage => exact feed_arm_keyword_sound hc hhost hnested _ hposition h (Or.inr hstage)
  next hstage => exact feed_loop_keyword_sound hc hhost hnested _ hposition h hstage
  · exact .warn (pass_else_junk_sound hhost h.toParts)
  · exact .refuse

/-- Takes a token, given a way to read blocks. -/
theorem feed_sound (hposition : token.IsPosition g.env.extensions location → atEnd = true)
    (h : block.Settled g.toSurroundings) :
    Sound g atEnd (feed g.env nested token location) block (Orderly g token) := by
  unfold feed
  split
  next word => exact feed_keyword_sound hc hhost hnested word hposition h
  · exact feed_newline_sound h
  · exact feed_other_sound hc hhost hposition h

end Nested

/-- The code of a block is safe. -/
theorem scan_sound (h : block.Settled g.toSurroundings) :
    Sound g atEnd (scan g.env n) block fun _ q => Safe g.toSurroundings q.code := by
  induction n using Nat.strongRecOn generalizing block atEnd with
  | ind n ih =>
      rw [scan]
      refine .scan (Settled g.toSurroundings) hhost.lacksPosition ?_ nofun h
      intro m hm token location block atEnd hposition h
      exact feed_sound hc hhost (fun _ h => ih m hm h) hposition h

end Reader

end Block

/-! ### Bodies -/

namespace Body

variable {body : Body} (hc : g.Addressable) (hhost : g.env.extensions.Orderly)

/-- What a body answers to a token. -/
abbrev Orderly (g : Ending) (token : Token) : Verdict → Body → Prop :=
  Answers token (fun body => Safe g.toSurroundings body.code)
    fun body => Safe g.toSurroundings body.code

include hc hhost

theorem read_line_sound (hposition : token.IsPosition g.env.extensions location → atEnd = true)
    (h : Safe g.toSurroundings body.code) :
    Sound g atEnd (readLine g.env token location : Reading n Body Verdict) body
      (Orderly g token) := by
  refine .get (.nested (Statement.compile_sound hc hhost ?_) ?_)
  · rintro _ _ ⟨⟩
    exact hposition
  · rintro ⟨read, code⟩ _ hcode
    exact .modify (.pure (h.append (.of_carries hcode)))

theorem read_block_sound (word : Builtin) (first : Option (Token × Location))
    (h : Safe g.toSurroundings body.code) :
    Sound g atEnd (readBlock g.env word location first : Reading n Body Verdict) body
      (Orderly g token) := by
  have hopening : Sound g atEnd (Block.opening g.env word location first : Reading n Block Unit)
      {} fun _ q => q.Settled g.toSurroundings :=
    Block.opening_sound hc hhost word first (Block.parts_of_fresh _)
  refine .nested (.recover_line (.bind hopening fun _ _ h => Block.scan_sound hc hhost h)) ?_
  rintro read block ⟨rfl, hblock⟩
  exact .modify (.pure (h.append hblock))

/-- Every token leaves the body in order. -/
theorem feed_sound (hposition : token.IsPosition g.env.extensions location → atEnd = true)
    (h : Safe g.toSurroundings body.code) :
    Sound g atEnd (feed g.env token location : Reading n Body Verdict) body
      (Orderly g token) := by
  unfold feed
  split
  · exact read_block_sound hc hhost .ifBlock none h
  · exact read_block_sound hc hhost .elseIf none h
  · exact read_block_sound hc hhost .whileBlock none h
  · refine .warn (.bind (.skip_line hhost.lacksPosition) fun _ q hq => ?_)
    subst hq
    exact .pure h
  · refine .get ?_
    split
    · exact .pure h
    · exact read_line_sound hc hhost hposition h
  · exact .pure h
  · exact read_block_sound hc hhost .ifBlock _ h
  · exact read_line_sound hc hhost hposition h

/-- The code of a body is safe. -/
theorem scan_sound (h : Safe g.toSurroundings body.code) :
    Sound g atEnd (scan g.env : Reading n Body Unit) body
      fun _ q => Safe g.toSurroundings q.code :=
  .scan (fun body => Safe g.toSurroundings body.code) hhost.lacksPosition
    (fun _ _ _ _ _ _ hposition h => feed_sound hc hhost hposition h) (fun _ _ h => h) h

end Body

end QuestScript
