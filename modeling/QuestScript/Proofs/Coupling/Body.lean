import QuestScript.Compile
import QuestScript.Proofs.Coupling.Statement

/-!
# Bodies and script files side by side

Blocks, bodies, script files and outlines keep in step under every coupling that recovers from
errors. A body on the left may be that of a script and the one on the right that of the console
(`Body.feed_sim`), as long as the body on the left does not come to `end`.
-/

namespace QuestScript

open Coupling

variable {n m : Nat} {env : Environment} {place : Location → Location → Prop}
  {C : ScanCoupling env place} {l l' : Location} {token token' : Token} {name name' : String}
  (hC : C.Recovers) (hdown : ∃ C', C.Tolerates C')

/-! ### Blocks -/

namespace Block

/-- What a block does with two tokens, which stand at `l` and `l'`, is the same. -/
abbrev InStep (C : ScanCoupling env place) (n m : Nat) (l l' : Location)
    (x : Reading n Block Verdict) (y : Reading m Block Verdict) : Prop :=
  C.Sim Eq (C.Agrees l l') x y

theorem goto_sim (stage : Stage) :
    InStep C n m l l' (goto stage) (goto stage) :=
  .seq (.modify fun _ _ h => by rw [h]) fun _ => .pure .more

theorem pass_else_junk_sim :
    InStep C n m l l' (passElseJunk env) (passElseJunk env) :=
  .seq .skip_rest fun _ => goto_sim _

theorem close_arm_sim :
    C.Sim Eq Eq (closeArm : Reading n Block Unit) (closeArm : Reading m Block Unit) :=
  .modify fun _ _ h => by rw [h]

theorem close_conditional_sim :
    InStep C n m l l' closeConditional closeConditional :=
  .seq .get fun _ => .seq (.of_defect _) fun _ => .seq (.set rfl) fun _ => goto_sim _

theorem close_loop_sim :
    InStep C n m l l' closeLoop closeLoop :=
  .seq .get fun _ => .seq (.of_defect _) fun _ => .seq (.set rfl) fun _ => goto_sim _

theorem feed_newline_sim (hspot : C.spot l l') :
    InStep C n m l l' (feedNewline l) (feedNewline l') := by
  refine .seq .get fun block => ?_
  split
  · exact goto_sim _
  · exact goto_sim _
  · exact goto_sim _
  · exact .pure .more
  · exact .pure .more
  · exact .pure .more
  · exact .pure .done
  · exact .pure .done
  · exact .refuse (.special _) hspot

include hC

theorem read_condition_sim {first first' : Option (Token × Location)}
    (hfirst : Option.Rel (fun a b => a.1.Alike C.texts b.1 ∧ C.At a.1 a.2 b.2) first first')
    (behind body : Stage) :
    C.Sim Eq Eq (readCondition env first behind body : Reading n Block Unit)
      (readCondition env first' behind body : Reading m Block Unit) := by
  have hread : C.Sim (Expression.Alike C.spot) Eq
      (Reading.recoverLine env (Reading.starting (Expression.feed env (Expression.scan env n))
        (Expression.scan env n) first))
      (Reading.recoverLine env (Reading.starting (Expression.feed env (Expression.scan env m))
        (Expression.scan env m) first')) :=
    .recover_line hC (.starting hfirst (fun _ _ _ _ htoken hplace =>
      Expression.feed_sim (Expression.scan_sim n m) htoken hplace) (Expression.scan_sim n m))
  refine .seq (.modify fun _ _ h => by rw [h]) fun _ =>
    .bind (.nested ⟨_, C.spot_of_place C.place_start, rfl⟩ hread) ?_
  rintro ⟨read, e⟩ ⟨_, e'⟩ ⟨rfl, he⟩
  dsimp only
  split
  · refine .bind (.nested he Expression.finish_sim) ?_
    rintro ⟨⟨type, condition⟩, _⟩ ⟨_, _⟩ ⟨rfl, -⟩
    exact .modify fun _ _ h => by rw [h]
  · exact .modify fun _ _ h => by rw [h]

theorem opening_sim (word : Builtin) (hspot : C.spot l l')
    {first first' : Option (Token × Location)}
    (hfirst : Option.Rel (fun a b => a.1.Alike C.texts b.1 ∧ C.At a.1 a.2 b.2) first first') :
    C.Sim Eq Eq (opening env word l first : Reading n Block Unit)
      (opening env word l' first' : Reading m Block Unit) := by
  have hcondition : C.Sim Eq Eq
      (if word = .whileBlock then readCondition env first .whileEnd .whileBody
        else readCondition env first .ifEnd .ifBody : Reading n Block Unit)
      (if word = .whileBlock then readCondition env first' .whileEnd .whileBody
        else readCondition env first' .ifEnd .ifBody : Reading m Block Unit) := by
    split
    · exact read_condition_sim hC hfirst _ _
    · exact read_condition_sim hC hfirst _ _
  unfold opening
  dsimp only
  split
  · exact .seq (.warn_at (.same _) hspot) fun _ => hcondition
  · exact hcondition

include hdown

theorem read_line_sim (htoken : token.Alike C.texts token') (hplace : C.At token l l') :
    InStep C n m l l' (readLine env token l) (readLine env token' l') := by
  refine .bind (.nested (.refl _) (Statement.compile_sim hC hdown htoken hplace)) ?_
  rintro ⟨⟨read, code⟩, _⟩ ⟨_, _⟩ ⟨rfl, -⟩
  exact .seq (.modify fun _ _ h => by rw [h]) fun _ => .pure .more

theorem feed_other_sim (htoken : token.Alike C.texts token') (hplace : C.At token l l') :
    InStep C n m l l' (feedOther env token l) (feedOther env token' l') := by
  refine .seq .get fun block => ?_
  cases block.stage with
  | ifBody => exact read_line_sim hC hdown htoken hplace
  | elseBody => exact read_line_sim hC hdown htoken hplace
  | whileBody => exact read_line_sim hC hdown htoken hplace
  | elseJunk =>
      cases htoken with
      | name hname => exact .seq (.warn_at (.same _) hplace) fun _ => pass_else_junk_sim
      | special sign =>
          cases sign with
          | opening => exact pass_else_junk_sim
          | _ => exact .refuse (.special _) hplace
      | _ => exact .refuse (by constructor) hplace
  | _ => exact .refuse htoken hplace

section Nested

variable {nested : Reading n Block Unit} {nested' : Reading m Block Unit}
  (hnested : C.Sim Eq Eq nested nested')

include hnested

omit hdown in
theorem read_nested_sim (word : Builtin) (hspot : C.spot l l') :
    InStep C n m l l' (readNested env nested word l) (readNested env nested' word l') := by
  have hread : C.Sim Eq Eq (opening env word l none >>= fun _ => nested)
      (opening env word l' none >>= fun _ => nested') :=
    .seq (opening_sim hC word hspot .none) fun _ => hnested
  refine .bind (.nested (R := Eq) rfl hread) ?_
  rintro ⟨_, inner⟩ ⟨_, _⟩ ⟨-, rfl⟩
  exact .seq (.modify fun _ _ h => by rw [h]) fun _ => .pure .more

theorem feed_arm_keyword_sim (word : Keyword) (hplace : place l l') :
    InStep C n m l l' (feedArmKeyword env nested word l) (feedArmKeyword env nested' word l') := by
  unfold feedArmKeyword
  split
  · exact .seq close_arm_sim fun _ => close_conditional_sim
  · exact .seq close_arm_sim fun _ => .seq (read_condition_sim hC .none _ _) fun _ => .pure .more
  · exact .seq close_arm_sim fun _ => goto_sim _
  · exact read_nested_sim hC hnested _ (C.spot_of_place hplace)
  · exact read_nested_sim hC hnested _ (C.spot_of_place hplace)
  · exact read_line_sim hC hdown (.keyword _) hplace

theorem feed_loop_keyword_sim (word : Keyword) (hplace : place l l') :
    InStep C n m l l' (feedLoopKeyword env nested word l)
      (feedLoopKeyword env nested' word l') := by
  unfold feedLoopKeyword
  split
  · exact close_loop_sim
  · exact read_nested_sim hC hnested _ (C.spot_of_place hplace)
  · exact read_nested_sim hC hnested _ (C.spot_of_place hplace)
  · exact read_line_sim hC hdown (.keyword _) hplace

theorem feed_keyword_sim (word : Keyword) (hplace : place l l') :
    InStep C n m l l' (feedKeyword env nested word l) (feedKeyword env nested' word l') := by
  refine .seq .get fun block => ?_
  split
  · exact .seq (opening_sim hC _ (C.spot_of_place hplace) .none) fun _ => .pure .more
  · exact .seq (opening_sim hC _ (C.spot_of_place hplace) .none) fun _ => .pure .more
  · exact .seq (opening_sim hC _ (C.spot_of_place hplace) .none) fun _ => .pure .more
  · exact feed_arm_keyword_sim hC hdown hnested _ hplace
  · exact feed_arm_keyword_sim hC hdown hnested _ hplace
  · exact feed_loop_keyword_sim hC hdown hnested _ hplace
  · exact .seq (.warn _ hplace) fun _ => pass_else_junk_sim
  · exact .refuse (.keyword _) hplace

theorem feed_sim (htoken : token.Alike C.texts token') (hplace : C.At token l l') :
    InStep C n m l l' (feed env nested token l) (feed env nested' token' l') := by
  have hother := feed_other_sim (n := n) (m := m) hC hdown htoken hplace
  cases htoken with
  | keyword word => exact feed_keyword_sim hC hdown hnested word hplace
  | special sign =>
      cases sign with
      | newline => exact feed_newline_sim hplace
      | _ => exact hother
  | _ => exact hother

end Nested

theorem scan_sim (n m : Nat) : C.Sim Eq Eq (scan env n) (scan env m) := by
  -- A block inside the block is read from what is left behind its keyword.
  induction n using Nat.strongRecOn generalizing m with
  | ind n ih =>
      rw [scan, scan]
      exact .scan (fun _ _ _ => rfl) fun k hk k' _ _ _ _ _ htoken hplace =>
        feed_sim hC hdown (ih k hk k') htoken hplace

end Block

/-! ### Bodies -/

namespace Body

/-- Bodies with the same code, where it is given whether they end at `end`. -/
structure Alike (ends ends' : Bool) (body body' : Body) : Prop where
  left : body.ends = ends
  right : body'.ends = ends'
  code : body'.code = body.code

variable {ends ends' : Bool}

theorem emit_sim (code : Code) :
    C.Sim (Alike ends ends') Eq (emit code : Reading n Body Unit)
      (emit code : Reading m Body Unit) := by
  refine .modify fun body body' h => ⟨h.left, h.right, ?_⟩
  show body'.code ++ code = body.code ++ code
  rw [h.code]

include hC hdown

/-- The body on the left may be that of a script and the one on the right that of the console, if
every error puts the one on the left out of the comparison. -/
theorem read_line_sim (hends : ends' = ends ∨ C.strict ∧ ends = true)
    (htoken : token.Alike C.texts token') (hplace : C.At token l l') :
    C.Sim (Alike ends ends') (C.Agrees l l') (readLine env token l : Reading n Body Verdict)
      (readLine env token' l' : Reading m Body Verdict) := by
  refine .bind .get fun body body' hbody => ?_
  have hstart : Statement.Alike C { allowExpression := !body.ends }
      { allowExpression := !body'.ends } := by
    rw [hbody.left, hbody.right]
    refine ⟨!ends', "", rfl, ?_, C.texts.refl _, fun _ => rfl⟩
    obtain rfl | ⟨hstrict, rfl⟩ := hends
    · exact Or.inl rfl
    · exact Or.inr ⟨hstrict, rfl⟩
  refine .bind (.nested hstart (Statement.compile_sim hC hdown htoken hplace)) ?_
  rintro ⟨⟨read, code⟩, _⟩ ⟨_, _⟩ ⟨rfl, -⟩
  exact .seq (emit_sim code) fun _ => .pure .more

theorem read_block_sim (word : Builtin) (hspot : C.spot l l')
    {first first' : Option (Token × Location)}
    (hfirst : Option.Rel (fun a b => a.1.Alike C.texts b.1 ∧ C.At a.1 a.2 b.2) first first') :
    C.Sim (Alike ends ends') (C.Agrees l l') (readBlock env word l first : Reading n Body Verdict)
      (readBlock env word l' first' : Reading m Body Verdict) := by
  have hread : C.Sim Eq Eq (Block.opening env word l first >>= fun _ => Block.scan env n)
      (Block.opening env word l' first' >>= fun _ => Block.scan env m) :=
    .seq (Block.opening_sim hC word hspot hfirst) fun _ => Block.scan_sim hC hdown n m
  refine .bind (.nested (R := Eq) rfl (.recover_line hC hread)) ?_
  rintro ⟨read, block⟩ ⟨_, _⟩ ⟨rfl, rfl⟩
  dsimp only
  split
  · exact .seq (emit_sim _) fun _ => .pure .more
  · exact .pure .more

/-- Two bodies that are offered tokens that are alike agree on them, if they do about `end`. -/
theorem feed_sim (hends : ends' = ends ∨ C.strict ∧ ends = true)
    (htoken : token.Alike C.texts token') (hplace : C.At token l l')
    (hend : token = .keyword (.builtin .endScript) → ends' = ends) :
    C.Sim (Alike ends ends') (C.Agrees l l') (feed env token l : Reading n Body Verdict)
      (feed env token' l' : Reading m Body Verdict) := by
  have hline := read_line_sim (n := n) (m := m) hC hdown hends htoken hplace
  cases htoken with
  | keyword word =>
      unfold feed
      split
      · exact read_block_sim hC hdown _ hplace.spot .none
      · exact read_block_sim hC hdown _ hplace.spot .none
      · exact read_block_sim hC hdown _ hplace.spot .none
      · exact .seq (.warn _ hplace) fun _ => .seq .skip_line fun _ => .pure .more
      next heq =>
        obtain rfl := hend heq
        refine .bind .get fun body body' hbody => ?_
        rw [hbody.left, hbody.right]
        split
        · exact .pure .done
        · exact hline
      next heq => cases heq
      next heq => cases heq
      · exact hline
  | special sign =>
      cases sign with
      | newline => exact .pure .more
      | opening => exact read_block_sim hC hdown _ hplace (.some ⟨.special _, hplace⟩)
      | _ => exact hline
  | _ => exact hline

theorem scan_sim (ends : Bool) :
    C.Sim (Alike ends ends) Eq (scan env : Reading n Body Unit)
      (scan env : Reading m Body Unit) := by
  refine .scan (fun body body' hbody => ?_) fun _ _ _ _ _ _ _ _ htoken hplace =>
    feed_sim hC hdown (Or.inl rfl) htoken hplace fun _ => rfl
  rw [hbody.left, hbody.right]

end Body

/-! ### Script files -/

namespace ScriptFile

/-- Script files that are the same up to their names, which are alike. -/
def Alike (C : ScanCoupling env place) (file file' : ScriptFile) : Prop :=
  ∃ name, C.texts.rel file.name name ∧ file' = { file with name }

theorem Alike.refl (file : ScriptFile) : Alike C file file :=
  ⟨_, C.texts.refl _, rfl⟩

/-- A change that has nothing to do with the name. -/
theorem modify_sim {change : ScriptFile → ScriptFile}
    (hchange : ∀ file name, change { file with name } = { change file with name }) :
    C.Sim (Alike C) Eq (modify change : Reading n ScriptFile PUnit)
      (modify change : Reading m ScriptFile PUnit) := by
  refine .modify ?_
  rintro file _ ⟨name, hname, rfl⟩
  have hsame := congrArg ScriptFile.name (hchange file file.name)
  change (change file).name = file.name at hsame
  exact ⟨name, by rwa [hsame], hchange file name⟩

/-- What two files do with their next tokens, which stand at `l` and `l'`, keeps them alike. -/
abbrev InStep (C : ScanCoupling env place) (n m : Nat) (l l' : Location)
    (x : Reading n ScriptFile Verdict) (y : Reading m ScriptFile Verdict) : Prop :=
  C.Sim (Alike C) (C.Agrees l l') x y

theorem feed_begin_name_sim (hname : C.texts.rel name name') :
    InStep C n m l l' (feedBeginName name) (feedBeginName name') := by
  refine .seq (.modify ?_) fun _ => .pure .more
  rintro file _ ⟨_, -, rfl⟩
  exact ⟨name', hname, rfl⟩

theorem same_name_eq {first first' : String} (hfirst : C.texts.rel first first')
    (hname : C.texts.rel name name') : sameName first' name' = sameName first name := by
  unfold sameName
  rw [C.texts.map_toLower_eq hfirst, C.texts.map_toLower_eq hname]

theorem feed_end_name_sim (hname : C.texts.rel name name') (hspot : C.spot l l') :
    InStep C n m l l' (feedEndName name l) (feedEndName name' l') := by
  refine .bind .get ?_
  rintro file _ ⟨first, hfirst, rfl⟩
  have hfile : Alike C { file with stage := .endComplete }
      { file with name := first, stage := .endComplete } := ⟨first, hfirst, rfl⟩
  dsimp only
  rw [same_name_eq hfirst hname]
  split
  · exact .seq (.set hfile) fun _ => .pure .done
  · exact .seq (.warn_at (.scriptNamesDiffer hfirst) hspot) fun _ =>
      .seq (.set hfile) fun _ => .pure .done

include hC hdown

theorem read_body_sim :
    InStep C n m l l' (readBody env) (readBody env) := by
  refine .bind (.within hC (R := Body.Alike true true) ⟨rfl, rfl, rfl⟩
    (Body.scan_sim hC hdown true)) ?_
  rintro ⟨outcome, body⟩ ⟨outcome', body'⟩ ⟨houtcome, hbody⟩
  dsimp only
  rw [show body'.code = body.code from hbody.code]
  exact .seq (modify_sim fun _ _ => rfl) fun _ => .bind (.of_outcome houtcome) fun _ _ _ =>
    .seq (modify_sim fun _ _ => rfl) fun _ => .pure .more

theorem feed_sim (htoken : token.Alike C.texts token') (hplace : C.At token l l') :
    InStep C n m l l' (feed env token l) (feed env token' l') := by
  refine .bind .get ?_
  rintro file _ ⟨first, -, rfl⟩
  dsimp only
  cases htoken with
  | name hname =>
      cases file.stage with
      | name => exact feed_begin_name_sim hname
      | beginComplete =>
          exact .seq (.warn_at (.extraAfterScriptName hname) hplace) fun _ => .pure .more
      | endName => exact feed_end_name_sim hname hplace
      | _ => exact .refuse (.name hname) hplace
  | keyword word =>
      have hrefuse : InStep C n m l l' (Reading.refuse (.keyword word) l)
          (Reading.refuse (.keyword word) l') :=
        .refuse (.keyword word) hplace
      cases file.stage with
      | begin =>
          split
          · exact .seq (modify_sim fun _ _ => rfl) fun _ =>
              .seq (.modify_modes (.tolerant_names true)) fun _ => .pure .more
          all_goals first
            | exact hrefuse
            | contradiction
      | name => exact feed_begin_name_sim (C.literal_alike hplace)
      | endName => exact feed_end_name_sim (C.literal_alike hplace) hplace.spot
      | _ => exact hrefuse
  | special sign =>
      have hrefuse : InStep C n m l l' (Reading.refuse (.special sign) l)
          (Reading.refuse (.special sign) l') :=
        .refuse (.special sign) hplace
      cases file.stage with
      | begin =>
          dsimp only
          split
          · exact .seq (.warn_at (.same _) hplace) fun _ => .pure .more
          · exact .pure .more
      | name => exact hrefuse
      | beginComplete =>
          cases sign with
          | newline => exact read_body_sim hC hdown
          | _ => exact hrefuse
      | endName =>
          cases sign with
          | newline => exact .pure .done
          | _ => exact hrefuse
      | endComplete =>
          cases sign with
          | newline => exact .pure .done
          | _ => exact hrefuse
  | int value => cases file.stage <;> exact .refuse (.int value) hplace
  | float value => cases file.stage <;> exact .refuse (.float value) hplace
  | comment text => cases file.stage <;> exact .refuse (.comment text) hplace
  | endOfText => cases file.stage <;> exact .refuse .endOfText hplace

theorem scan_sim :
    C.Sim (Alike C) Eq (scan env : Reading n ScriptFile Unit)
      (scan env : Reading m ScriptFile Unit) := by
  refine .scan ?_ fun _ _ _ _ _ _ _ _ htoken hplace => feed_sim hC hdown htoken hplace
  rintro file _ ⟨name, -, rfl⟩
  rfl

end ScriptFile

/-! ### Outlines -/

namespace Outline

include hC

theorem feed_sim (htoken : token.Alike C.texts token') (hplace : C.At token l l') :
    C.Sim Eq (C.Agrees l l') (feed env token l : Reading n Unit Verdict)
      (feed env token' l' : Reading m Unit Verdict) := by
  have hskip : C.Sim Eq (C.Agrees l l')
      (Reading.skipLine env >>= fun _ => pure .more : Reading n Unit Verdict)
      (Reading.skipLine env >>= fun _ => pure .more : Reading m Unit Verdict) :=
    .seq .skip_line fun _ => .pure .more
  cases htoken with
  | keyword word =>
      unfold feed
      split
      · exact .pure .done
      next heq => cases heq
      · dsimp only
        split
        · exact .bind (.nested (R := Eq) rfl (Declaration.read_from_sim hC _ hplace)) fun _ _ _ =>
            .pure .more
        · exact hskip
      · exact hskip
  | special sign =>
      cases sign with
      | newline => exact .pure .more
      | _ => exact hskip
  | _ => exact hskip

theorem scan_sim :
    C.Sim Eq Eq (scan env : Reading n Unit Unit) (scan env : Reading m Unit Unit) :=
  .scan (fun _ _ _ => rfl) fun _ _ _ _ _ _ _ _ htoken hplace => feed_sim hC htoken hplace

end Outline

end QuestScript
