import QuestScript.Outline
import QuestScript.Proofs.Custody.Statement
import QuestScript.ScriptFile

/-!
# Bodies and script files in custody

Blocks, bodies, script files and outlines are read line by line, and the first token of a line is in
hand when a statement or a block is started on it. So a whole script is read in every custody
(`ScriptFile.scan_custody`, `Body.scan_custody`, `Outline.scan_custody`).
-/

namespace QuestScript

open Custody

variable {n : Nat} {env : Environment} {C : Custody env} {l : Location} {token : Token}
  {held : Bool}

/-! ### Blocks -/

namespace Block

variable {block : Block}

/-- All code of the block is in order. -/
structure InOrder (C : Custody env) (block : Block) : Prop where
  condition : C.Codes block.condition
  body : C.Codes block.body
  arms : ∀ arm ∈ block.arms, (∀ c ∈ arm.condition, C.Codes c) ∧ C.Codes arm.body
  code : C.Codes block.code

theorem in_order_fresh : InOrder C ({} : Block) :=
  ⟨.nil, .nil, by rintro _ ⟨⟩, .nil⟩

/-- The block takes the token in hand. -/
abbrev TakesToken (C : Custody env) (n : Nat) (x : Reading n Block Verdict) (block : Block)
    (held : Bool) : Prop :=
  C.Keeps x block held (C.Answers (InOrder C) (InOrder C))

theorem goto_custody (stage : Stage) (h : block.InOrder C) :
    TakesToken C n (goto stage) block held :=
  .modify (.pure ⟨h.condition, h.body, h.arms, h.code⟩)

/-- Reads a condition. If that fails the body follows. -/
theorem read_condition_custody (first : Option (Token × Location)) (behind body : Stage)
    (h : block.InOrder C) :
    C.Keeps (readCondition env first behind body : Reading n Block Unit) block true
      fun _ block _ => block.InOrder C := by
  have hread : C.Keeps (Reading.recoverLine env (Reading.starting
      (Expression.feed env (Expression.scan env n)) (Expression.scan env n) first))
      ({} : Expression) true fun read e _ => read = true → e.InOrder C :=
    .recover_line (Expression.starting_custody (Expression.in_order_of_fresh rfl rfl rfl))
  refine .modify (.nested hread (fun _ => trivial) fun read e _ he => ?_)
  cases read with
  | true =>
      refine .nested (Expression.finish_custody (he rfl)) (fun _ => trivial) fun _ _ _ hfound => ?_
      exact .modified ⟨hfound, h.body, h.arms, h.code⟩
  | false => exact .modified ⟨.nil, h.body, h.arms, h.code⟩

/-- The condition of the next arm. -/
theorem next_condition_custody (h : block.InOrder C) : TakesToken C n (do
    readCondition env none .ifEnd .ifBody
    pure .more) block true :=
  (read_condition_custody none _ _ h).bind fun _ _ _ h => .pure h

theorem opening_custody (word : Builtin) (first : Option (Token × Location))
    (h : block.InOrder C) :
    C.Keeps (opening env word l first : Reading n Block Unit) block true
      fun _ block _ => block.InOrder C := by
  have hcondition : C.Keeps
      (if word = .whileBlock then readCondition env first .whileEnd .whileBody
        else readCondition env first .ifEnd .ifBody : Reading n Block Unit) block true
      fun _ block _ => block.InOrder C := by
    split
    · exact read_condition_custody first _ _ h
    · exact read_condition_custody first _ _ h
  unfold opening
  dsimp only
  split
  · exact .warn hcondition
  · exact hcondition

theorem pass_else_junk_custody (h : block.InOrder C) :
    TakesToken C n (passElseJunk env) block held := by
  refine Keeps.skip_rest.bind ?_
  rintro _ _ _ rfl
  exact goto_custody _ h

theorem in_order_close_arm {β : Type} {k : PUnit → Reading n Block β}
    {post : β → Block → Bool → Prop} (h : block.InOrder C)
    (hk : ∀ {block : Block}, block.InOrder C → C.Keeps (k ⟨⟩) block held post) :
    C.Keeps (closeArm >>= k) block held post := by
  refine .modify (hk ⟨?_, .nil, ?_, h.code⟩)
  · show C.Codes (if block.stage = .elseBody then block.condition else [])
    split
    · exact h.condition
    · exact .nil
  · intro arm harm
    rcases List.mem_append.1 harm with harm | harm
    · exact h.arms arm harm
    · obtain rfl := List.mem_singleton.1 harm
      refine ⟨fun c hc => ?_, h.body⟩
      dsimp only at hc
      split at hc
      · cases hc
      · cases hc
        exact h.condition

/-- The arms that have been read can be put together. -/
theorem close_conditional_custody (h : block.InOrder C) :
    TakesToken C n closeConditional block held := by
  obtain ⟨code, hcode⟩ := ControlFlow.exists_conditional_eq block.arms
  have hclosed : C.Codes code := fun htracked => ControlFlow.conditional_accesses_only
    (fun arm harm => ⟨fun c hc => (h.arms arm harm).1 c hc htracked, (h.arms arm harm).2 htracked⟩)
    hcode
  exact .get (.of_ok hcode (.set (goto_custody _
    ⟨h.condition, h.body, by rintro _ ⟨⟩, h.code.append hclosed⟩)))

/-- A loop has the size that was expected. -/
theorem close_loop_custody (h : block.InOrder C) : TakesToken C n closeLoop block held := by
  have hloop : ∃ code, ControlFlow.loop block.condition block.body = .ok code := by
    by_cases hcondition : block.condition = []
    · exact ⟨[], by rw [ControlFlow.loop, hcondition]; rfl⟩
    · obtain ⟨_, _, hcode, -⟩ := ControlFlow.loop_eq hcondition block.body
      exact ⟨_, hcode⟩
  obtain ⟨code, hcode⟩ := hloop
  have hclosed : C.Codes code := fun htracked =>
    ControlFlow.loop_accesses_only (h.condition htracked) (h.body htracked) hcode
  exact .get (.of_ok hcode (.set (goto_custody _
    ⟨.nil, .nil, h.arms, h.code.append hclosed⟩)))

theorem feed_newline_custody (h : block.InOrder C) :
    TakesToken C n (feedNewline l) block held := by
  refine .get ?_
  split
  · exact goto_custody _ h
  · exact goto_custody _ h
  · exact goto_custody _ h
  · exact .pure h
  · exact .pure h
  · exact .pure h
  · exact .pure h
  · exact .pure h
  · exact .refuse

section Lines

variable (hbuttons : C.defects .tooManyButtons)

include hbuttons

theorem read_line_custody (h : block.InOrder C) :
    TakesToken C n (readLine env token l) block true :=
  .nested (Statement.compile_custody hbuttons) (fun _ => trivial) fun _ _ _ hfound =>
    .modify (.pure ⟨h.condition, h.body.append hfound, h.arms, h.code⟩)

theorem feed_other_custody (h : block.InOrder C) :
    TakesToken C n (feedOther env token l) block true := by
  refine .get ?_
  split
  · exact read_line_custody hbuttons h
  · exact read_line_custody hbuttons h
  · exact read_line_custody hbuttons h
  · exact .warn (pass_else_junk_custody h)
  · exact pass_else_junk_custody h
  · exact .refuse

variable {nested : Reading n Block Unit}
  (hnested : ∀ {block held}, block.InOrder C →
    C.Keeps nested block held fun _ block _ => block.InOrder C)

include hnested

omit hbuttons in
/-- A block inside the body is read up to its end. -/
theorem read_nested_custody (word : Builtin) (h : block.InOrder C) :
    TakesToken C n (readNested env nested word l) block true := by
  have hread : C.Keeps (do
      opening env word l none
      nested) ({} : Block) true fun _ block _ => block.InOrder C :=
    (opening_custody word none in_order_fresh).bind fun _ _ _ h => hnested h
  exact .nested hread (fun _ => trivial) fun _ _ _ hinner =>
    .modify (.pure ⟨h.condition, h.body.append hinner.code, h.arms, h.code⟩)

theorem feed_arm_keyword_custody (word : Keyword) (h : block.InOrder C) :
    TakesToken C n (feedArmKeyword env nested word l) block true := by
  unfold feedArmKeyword
  split
  · exact in_order_close_arm h fun h => close_conditional_custody h
  · exact in_order_close_arm h fun h => next_condition_custody h
  · exact in_order_close_arm h fun h => goto_custody _ h
  · exact read_nested_custody hnested _ h
  · exact read_nested_custody hnested _ h
  · exact read_line_custody hbuttons h

theorem feed_loop_keyword_custody (word : Keyword) (h : block.InOrder C) :
    TakesToken C n (feedLoopKeyword env nested word l) block true := by
  unfold feedLoopKeyword
  split
  · exact close_loop_custody h
  · exact read_nested_custody hnested _ h
  · exact read_nested_custody hnested _ h
  · exact read_line_custody hbuttons h

theorem feed_keyword_custody (word : Keyword) (h : block.InOrder C) :
    TakesToken C n (feedKeyword env nested word l) block true := by
  have hopening (word : Builtin) : TakesToken C n (do
      opening env word l none
      pure .more) block true :=
    (opening_custody word none h).bind fun _ _ _ h => .pure h
  refine .get ?_
  split
  · exact hopening _
  · exact hopening _
  · exact hopening _
  · exact feed_arm_keyword_custody hbuttons hnested _ h
  · exact feed_arm_keyword_custody hbuttons hnested _ h
  · exact feed_loop_keyword_custody hbuttons hnested _ h
  · exact .warn (pass_else_junk_custody h)
  · exact .refuse

theorem feed_custody (h : block.InOrder C) :
    TakesToken C n (feed env nested token l) block true := by
  unfold feed
  split
  · exact feed_keyword_custody hbuttons hnested _ h
  · exact feed_newline_custody h
  · exact feed_other_custody hbuttons h

end Lines

/-- A block is read up to the end of its last line. -/
theorem scan_custody (hbuttons : C.defects .tooManyButtons) (n : Nat) (h : block.InOrder C) :
    C.Keeps (scan env n) block held fun _ block _ => block.InOrder C := by
  induction n using Nat.strongRecOn generalizing block held with
  | ind n ih =>
      rw [scan]
      exact .scan (InOrder C) (by rintro _ _ ⟨⟩)
        (fun m hm _ _ _ h => feed_custody hbuttons (fun h => ih m hm h) h) h

end Block

/-! ### Bodies -/

namespace Body

/-- The code of the body is in order. -/
abbrev InOrder (C : Custody env) (body : Body) : Prop :=
  C.Codes body.code

variable {body : Body} (hbuttons : C.defects .tooManyButtons)

include hbuttons

theorem read_line_custody (h : body.InOrder C) :
    C.Keeps (readLine env token l : Reading n Body Verdict) body true
      (C.Answers (InOrder C) (InOrder C)) :=
  .get (.nested (Statement.compile_custody hbuttons) (fun _ => trivial) fun _ _ _ hfound =>
    .modify (.pure (h.append hfound)))

theorem read_block_custody (word : Builtin) (first : Option (Token × Location))
    (h : body.InOrder C) :
    C.Keeps (readBlock env word l first : Reading n Body Verdict) body true
      (C.Answers (InOrder C) (InOrder C)) := by
  have hblock : C.Keeps (do
      Block.opening env word l first
      Block.scan env n) ({} : Block) true fun _ block _ => block.InOrder C :=
    (Block.opening_custody word first Block.in_order_fresh).bind fun _ _ _ h =>
      Block.scan_custody hbuttons n h
  refine .nested hblock.recover_line (fun _ => trivial) fun read block _ hblock => ?_
  cases read with
  | true => exact .modify (.pure (h.append (hblock rfl).code))
  | false => exact .pure h

/-- Takes the first token of a line. -/
theorem feed_custody (h : body.InOrder C) :
    C.Keeps (feed env token l : Reading n Body Verdict) body true
      (C.Answers (InOrder C) (InOrder C)) := by
  unfold feed
  split
  · exact read_block_custody hbuttons _ _ h
  · exact read_block_custody hbuttons _ _ h
  · exact read_block_custody hbuttons _ _ h
  · refine .warn (Keeps.skip_line.bind ?_)
    rintro _ _ _ rfl
    exact .pure h
  · refine .get ?_
    split
    · exact .pure h
    · exact read_line_custody hbuttons h
  · exact .pure h
  · exact read_block_custody hbuttons _ _ h
  · exact read_line_custody hbuttons h

/-- A body is read line by line. -/
theorem scan_custody (h : body.InOrder C) :
    C.Keeps (scan env : Reading n Body Unit) body held fun _ body _ => body.InOrder C :=
  .scan (InOrder C) (fun _ h _ => h) (fun _ _ _ _ _ h => feed_custody hbuttons h) h

end Body

/-! ### Script files and outlines -/

namespace ScriptFile

variable {file : ScriptFile} (hbuttons : C.defects .tooManyButtons)

/-- A script file takes the token in hand. -/
abbrev TakesToken (C : Custody env) (n : Nat) (x : Reading n ScriptFile Verdict)
    (file : ScriptFile) : Prop :=
  C.Keeps x file true (C.Answers (fun _ => True) fun _ => True)

theorem feed_end_name_custody (name : String) : TakesToken C n (feedEndName name l) file := by
  refine .get ?_
  dsimp only
  split
  · exact .set (.pure trivial)
  · exact .warn (.set (.pure trivial))

include hbuttons

theorem read_body_custody : TakesToken C n (readBody env) file := by
  refine .within (Body.scan_custody hbuttons .nil) ?_ ?_ ?_
  · exact fun _ _ _ _ => .modify (.modify (.pure trivial))
  · exact fun _ _ _ => .modify fun _ _ hholds => .source trivial hholds
  · exact fun _ _ hsource hreason _ => .modify fun _ _ hholds => .stopped hsource hreason hholds

theorem feed_custody : TakesToken C n (feed env token l) file := by
  refine .get ?_
  split
  · exact .modify (.modify_modes (.pure trivial))
  · dsimp only
    split
    · exact .warn (.pure trivial)
    · exact .pure trivial
  · exact .modify (.pure trivial)
  · exact .modify (.pure trivial)
  · exact .warn (.pure trivial)
  · exact read_body_custody hbuttons
  · exact feed_end_name_custody _
  · exact feed_end_name_custody _
  · exact .pure trivial
  · exact .pure trivial
  · exact .refuse

/-- A script file is read from its first line to its end. -/
theorem scan_custody :
    C.Keeps (scan env : Reading n ScriptFile Unit) file held fun _ _ _ => True :=
  .scan (fun _ => True) (fun _ _ _ => trivial) (fun _ _ _ _ _ _ => feed_custody hbuttons) trivial

end ScriptFile

/-- An outline is read from its first line to the end of the script or of the text. -/
theorem Outline.scan_custody :
    C.Keeps (scan env : Reading n Unit Unit) () held fun _ _ _ => True := by
  refine .scan (fun _ => True) (fun _ _ _ => trivial) ?_ trivial
  intro m hm _ token l _
  have hskip : C.Keeps (do
      Reading.skipLine env
      pure .more : Reading m Unit Verdict) () true (C.Answers (fun _ => True) fun _ => True) :=
    Keeps.skip_line.bind fun _ _ _ _ => .pure trivial
  unfold feed
  split
  · exact .pure trivial
  · exact .pure trivial
  · split
    · exact .nested (Declaration.read_from_custody _) (fun _ => trivial) fun _ _ _ _ =>
        .pure trivial
    · exact hskip
  · exact hskip

end QuestScript
