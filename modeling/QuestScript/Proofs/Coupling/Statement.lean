import QuestScript.Proofs.Coupling.Expression
import QuestScript.Statement

/-!
# Statements side by side

Two statements keep in step under every coupling. Where errors put the run on the left out of the
comparison, the run on the right may be on the console and the one on the left in a script: what
the console allows beyond that is an error in a script (`Statement.Alike`).

The arguments of `PositionCell` are read while errors count as warnings. There the sessions have to
correspond in the way that `Coupling.Tolerates` describes.
-/

namespace QuestScript

open Coupling

variable {n m : Nat} {env : Environment} {place : Location → Location → Prop}
  {C : ScanCoupling env place} {l l' : Location} {token token' : Token} {name name' : String}

/-! ### Declarations -/

namespace Declaration

theorem declare_sim (type : ValueType) (hname : C.texts.rel name name') (hspot : C.spot l l') :
    C.Sim Eq (C.Agrees l l') (declare type name l : Reading n Declaration Verdict)
      (declare type name' l' : Reading m Declaration Verdict) := by
  refine .seq .locals fun locals => ?_
  dsimp only
  rw [C.texts.toLower_eq hname]
  split
  · exact .seq (.warn_at (.same _) hspot) fun _ => .seq (.set rfl) fun _ => .pure .more
  · exact .seq (.declare _ _) fun _ => .seq (.set rfl) fun _ => .pure .more

variable (hC : C.Recovers)

include hC

theorem feed_sim (htoken : token.Alike C.texts token') (hplace : C.At token l l') :
    C.Sim Eq (C.Agrees l l') (feed env token l : Reading n Declaration Verdict)
      (feed env token' l' : Reading m Declaration Verdict) := by
  have hspot := hplace.spot
  have hextra : C.Sim Eq (C.Agrees l l') (passExtra env l : Reading n Declaration Verdict)
      (passExtra env l' : Reading m Declaration Verdict) :=
    .seq (.warn_at (.same _) hspot) fun _ => .seq .skip_rest fun _ => .pure .done
  refine .seq .get fun declaration => ?_
  cases htoken with
  | name hname =>
      cases declaration with
      | begin => exact .refuse (.name hname) hplace
      | typed type => exact declare_sim _ hname hspot
      | complete => exact hextra
  | keyword word =>
      cases declaration with
      | begin =>
          dsimp only
          split
          · exact .seq (.set rfl) fun _ => .pure .more
          · exact .refuse (.keyword word) hplace
      | typed type => exact declare_sim _ (C.literal_alike hplace) hspot
      | complete => exact hextra
  | int value =>
      cases declaration with
      | begin => exact .refuse (.int value) hplace
      | typed type =>
          exact .seq (.report (hC.reports _) hplace) fun _ => .seq .skip_rest fun _ =>
            .seq (.set rfl) fun _ => .pure .done
      | complete => exact hextra
  | special sign =>
      cases declaration with
      | begin => exact .refuse (.special sign) hplace
      | typed type => exact .refuse (.special sign) hplace
      | complete =>
          cases sign with
          | newline => exact .pure .done
          | _ => exact hextra
  | float value => cases declaration <;> exact .refuse (.float value) hplace
  | comment text =>
      cases declaration with
      | begin => exact .refuse (.comment text) hplace
      | typed type => exact .refuse (.comment text) hplace
      | complete => exact hextra
  | endOfText =>
      cases declaration with
      | begin => exact .refuse .endOfText hplace
      | typed type => exact .refuse .endOfText hplace
      | complete => exact hextra

theorem scan_sim :
    C.Sim Eq Eq (scan env : Reading n Declaration Unit) (scan env : Reading m Declaration Unit) :=
  .scan (fun _ _ h => by rw [h]) fun _ _ _ _ _ _ _ _ htoken hplace => feed_sim hC htoken hplace

theorem read_from_sim (word : Keyword) (hplace : place l l') :
    C.Sim Eq Eq (readFrom env word l : Reading n Declaration Unit)
      (readFrom env word l' : Reading m Declaration Unit) :=
  .starting (.some ⟨.keyword word, hplace⟩)
    (fun _ _ _ _ htoken hplace => feed_sim hC htoken hplace) (scan_sim hC)

end Declaration

/-! ### Statements -/

namespace Statement

/-- The name is that of an object or script, of which a member is to be set. -/
def Stage.hasOwner : Stage → Bool
  | .ownerTarget | .memberTarget => true
  | _ => false

/-- Statements that are the same, except that their names may be texts that are alike, unless a
member of what has the name is to be set. The one on the right may also allow expressions where
every error puts the one on the left out of the comparison. -/
def Alike (C : ScanCoupling env place) (statement statement' : Statement) : Prop :=
  ∃ allowExpression name, statement' = { statement with allowExpression, name } ∧
    (allowExpression = statement.allowExpression ∨
      C.strict ∧ statement.allowExpression = false) ∧
    C.texts.rel statement.name name ∧ (statement.stage.hasOwner = true → name = statement.name)

theorem Alike.refl (statement : Statement) : Alike C statement statement :=
  ⟨_, _, rfl, Or.inl rfl, C.texts.refl _, fun _ => rfl⟩

theorem Alike.map {change : Statement → Statement}
    (hchange : ∀ statement allowExpression name, change { statement with allowExpression, name } =
      { change statement with allowExpression, name })
    (hstage : ∀ statement, (change statement).stage.hasOwner = true →
      statement.stage.hasOwner = true)
    {statement statement' : Statement} (h : Alike C statement statement') :
    Alike C (change statement) (change statement') := by
  obtain ⟨allowExpression, name, rfl, hallow, hname, howner⟩ := h
  have hsame := hchange statement statement.allowExpression statement.name
  have hallowed := congrArg Statement.allowExpression hsame
  have hnamed := congrArg Statement.name hsame
  change (change statement).allowExpression = statement.allowExpression at hallowed
  change (change statement).name = statement.name at hnamed
  refine ⟨allowExpression, name, hchange statement allowExpression name, ?_, ?_, ?_⟩
  · rwa [hallowed]
  · rwa [hnamed]
  · intro h
    rw [hnamed]
    exact howner (hstage statement h)

/-- Two actions that keep statements alike and have the same result. -/
abbrev ActsAlike {α : Type} (C : ScanCoupling env place) (n m : Nat) (x : Reading n Statement α)
    (y : Reading m Statement α) : Prop :=
  C.Sim (Alike C) Eq x y

/-- A change that has nothing to do with the name and with whether expressions are allowed. -/
theorem modify_sim {change : Statement → Statement}
    (hchange : ∀ statement allowExpression name, change { statement with allowExpression, name } =
      { change statement with allowExpression, name })
    (hstage : ∀ statement, (change statement).stage.hasOwner = true →
      statement.stage.hasOwner = true) :
    ActsAlike C n m (modify change) (modify change) :=
  .modify fun _ _ h => h.map hchange hstage

theorem enter_sim (stage : Stage) (hstage : stage.hasOwner = false) :
    ActsAlike C n m (modify ({ · with stage })) (modify ({ · with stage })) := by
  refine modify_sim (fun _ _ _ => rfl) fun _ howner => ?_
  cases hstage.symm.trans howner

/-- What two statements do with their next tokens, which stand at `l` and `l'`, keeps them alike. -/
abbrev InStep (C : ScanCoupling env place) (n m : Nat) (l l' : Location)
    (x : Reading n Statement Verdict) (y : Reading m Statement Verdict) : Prop :=
  C.Sim (Alike C) (C.Agrees l l') x y

theorem goto_sim (stage : Stage) (hstage : stage.hasOwner = false) :
    InStep C n m l l' (goto stage) (goto stage) :=
  .seq (enter_sim stage hstage) fun _ => .pure .more

/-- A change of the stage behind which the token is not answered yet. -/
theorem advance_sim (stage : Stage) (hstage : stage.hasOwner = false) :
    C.Sim (Alike C) Eq (goto stage : Reading n Statement Verdict)
      (goto stage : Reading m Statement Verdict) :=
  .seq (enter_sim stage hstage) fun _ => .pure rfl

/-- The name becomes the same on both sides. -/
theorem rename_sim (name : String) (stage : Stage) :
    InStep C n m l l' (modify ({ · with name }) >>= fun _ => goto stage)
      (modify ({ · with name }) >>= fun _ => goto stage) := by
  rintro statement _ s t hs ht ⟨allowExpression, _, rfl, hallow, -, -⟩ hrel
  exact .ok .more ⟨allowExpression, name, rfl, hallow, C.texts.refl _, fun _ => rfl⟩ hrel

theorem emit_sim (code : Code) :
    ActsAlike C n m (emit code) (emit code) :=
  modify_sim (fun _ _ _ => rfl) fun _ => id

theorem emit_with_sim {make make' : Literals → Code × Literals}
    (hmake : Literals.MakesAlike C.texts make make')
    (within : ∀ pool : Literals, pool.Within (make pool).2)
    (within' : ∀ pool : Literals, pool.Within (make' pool).2) :
    ActsAlike C n m (emitWith make within) (emitWith make' within') :=
  .seq (.with_literals hmake within within') fun _ => emit_sim _

theorem emit_fragment_sim {make make' : Literals → Fragment × Literals}
    (hmake : Literals.MakesAlike C.texts make make')
    (within : ∀ pool : Literals, pool.Within (make pool).2)
    (within' : ∀ pool : Literals, pool.Within (make' pool).2) :
    ActsAlike C n m (emitFragment make within) (emitFragment make' within') :=
  .seq (.with_literals hmake within within') fun _ => .seq (emit_sim _) fun _ =>
    .seq (.of_defect _) fun _ => .pure rfl

theorem read_arguments_sim {ρ : Statement → Statement → Prop} (signature : String)
    (manner : ArgumentList.Manner) :
    C.Sim ρ Eq (readArguments env signature manner : Reading n Statement (Nat × Code))
      (readArguments env signature manner : Reading m Statement (Nat × Code)) :=
  ArgumentList.read_sim (Expression.scan_sim n m) signature manner

theorem read_value_sim :
    ActsAlike C n m (readValue env) (readValue env) := by
  have hread : C.Sim (Expression.Alike C.spot) Eq
      (Expression.scan env n >>= fun _ => Expression.finish)
      (Expression.scan env m >>= fun _ => Expression.finish) :=
    .seq (Expression.scan_sim n m) fun _ => Expression.finish_sim
  refine .bind (.nested ⟨_, C.spot_of_place C.place_start, rfl⟩ hread) ?_
  rintro ⟨value, _⟩ ⟨_, _⟩ ⟨rfl, -⟩
  exact .pure rfl

theorem feed_target_sim (hname : C.texts.rel name name') :
    InStep C n m l l' (feedTarget env name) (feedTarget env name') := by
  refine .seq .locals fun locals => ?_
  rw [C.texts.toLower_eq hname]
  cases locals.typeOf? (Text.toLower name) with
  | some type => exact rename_sim _ _
  | none =>
      cases env.globalType? (Text.toLower name) with
      | some type => exact rename_sim _ _
      | none => exact rename_sim _ _

/-- Takes the name of a member. The owner has the same name on both sides. -/
theorem feed_member?_ends (hname : C.texts.rel name name') {p q : Statement} {s t : Session}
    (hs : s.unread ≤ n) (ht : t.unread ≤ m) (hp : Alike C p q)
    (hstage : p.stage.hasOwner = true) (hrel : C.rel s t) :
    C.Ends (Alike C) (Option.Rel (C.Agrees l l'))
      ((feedMember? env name : Reading n Statement (Option Verdict)).run p s hs)
      ((feedMember? env name' : Reading m Statement (Option Verdict)).run q t ht) := by
  obtain ⟨allowExpression, owner, rfl, hallow, howner, hsame⟩ := id hp
  obtain rfl := hsame hstage
  unfold feedMember?
  dsimp only
  rw [Reading.run_get_bind, Reading.run_get_bind, C.texts.toLower_eq hname]
  dsimp only
  split
  · have hmodify : C.Sim (Alike C) Eq
        (modify ({ · with memberName := Text.toLower name }) : Reading n Statement PUnit)
        (modify ({ · with memberName := Text.toLower name }) : Reading m Statement PUnit) :=
      modify_sim (fun _ _ _ => rfl) fun _ => id
    exact Sim.bind_ends (hmodify _ _ s t hs ht hp hrel) fun _ _ _ =>
      .map (goto_sim _ rfl) fun _ _ => .some
  · exact Sim.pure .none _ _ _ _ _ _ hp hrel

theorem feed_message_sim (hname : C.texts.rel name name') :
    InStep C n m l l' (feedMessage env name) (feedMessage env name') := by
  have hgoto : C.Sim (Alike C) (C.Agrees l l')
      (modify ({ · with name := name, buttons := 0 }) >>= fun _ => goto .button :
        Reading n Statement Verdict)
      (modify ({ · with name := name', buttons := 0 }) >>= fun _ => goto .button :
        Reading m Statement Verdict) := by
    rintro statement _ s t hs ht ⟨allowExpression, _, rfl, hallow, -, -⟩ hrel
    exact .ok .more ⟨allowExpression, name', rfl, hallow, hname, by rintro ⟨⟩⟩ hrel
  unfold feedMessage
  dsimp only
  rw [C.texts.signature_eq hname]
  split
  · exact hgoto
  · exact .seq (read_arguments_sim _ _) fun _ => .seq (emit_sim _) fun _ => hgoto

theorem feed_button_sim (hname : C.texts.rel name name') :
    InStep C n m l l' (feedButton name) (feedButton name') :=
  .seq (emit_with_sim (.push_string hname) _ _) fun _ =>
    .seq (modify_sim (fun _ _ _ => rfl) fun _ => id) fun _ => goto_sim _ rfl

theorem feed_instruction_sim (word : Builtin) :
    ActsAlike C n m (feedInstruction env word) (feedInstruction env word) := by
  have hcomplete : ActsAlike C n m (goto .complete >>= fun _ => pure true)
      (goto .complete >>= fun _ => pure true) :=
    .seq (advance_sim _ rfl) fun _ => .pure rfl
  refine .bind .get ?_
  rintro statement _ ⟨allowExpression, name, rfl, -⟩
  dsimp only
  split
  · exact .seq (emit_with_sim (.with_reference _ _ _) _ _) fun _ => hcomplete
  · exact .seq (emit_with_sim (.with_reference _ _ _) _ _) fun _ => hcomplete
  · exact .seq (read_arguments_sim _ _) fun _ => .seq (emit_sim _) fun _ =>
      .seq (emit_with_sim (.with_reference _ _ _) _ _) fun _ => hcomplete
  · split
    · exact .pure rfl
    · exact .seq (read_arguments_sim _ _) fun _ => .seq (emit_sim _) fun _ =>
        .seq (emit_sim _) fun _ => hcomplete
  · exact .pure rfl

theorem drop_reference_sim (extension : Extension) (hspot : C.spot l l') :
    ActsAlike C n m (dropReference extension l) (dropReference extension l') := by
  refine .bind .get ?_
  rintro statement _ ⟨allowExpression, name, rfl, -⟩
  dsimp only
  split
  · exact .seq (.warn_at (.same _) hspot) fun _ => modify_sim (fun _ _ _ => rfl) fun _ => id
  · exact .pure rfl

theorem pass_stray_sim (problem : Problem) (hspot : C.spot l l') :
    InStep C n m l l' (passStray problem l) (passStray problem l') :=
  .seq (.warn_at (.same _) hspot) fun _ => goto_sim _ rfl

theorem feed_assignment_sim {C : ScanCoupling env place} (hC : C.Recovers) (word : Keyword)
    (hplace : place l l') :
    InStep C n m l l' (feedAssignment env word l) (feedAssignment env word l') := by
  refine .bind .get ?_
  rintro statement _ ⟨allowExpression, name, rfl, -, hname, -⟩
  dsimp only
  split
  · exact .seq read_value_sim fun _ => .seq (emit_sim _) fun _ => goto_sim _ rfl
  · exact .seq read_value_sim fun _ =>
      .seq (emit_with_sim (.assign_to_global _ hname _ _) _ _) fun _ => goto_sim _ rfl
  · exact .seq read_value_sim fun _ =>
      .seq (emit_with_sim (.assign_to_member _ (C.texts.refl _) hname _ _ _) _ _) fun _ =>
        goto_sim _ rfl
  · exact .seq (.report (hC.reports _) hplace) fun _ => .seq .skip_line fun _ => .pure .done
  · exact .refuse (.keyword word) hplace

/-! ### What only the console allows -/

/-- What the console allows is an error in a script. -/
theorem allow_sim {allowed allowed' : Bool} {x : Reading n Statement Verdict}
    {y : Reading m Statement Verdict}
    (hallow : allowed' = allowed ∨ C.strict ∧ allowed = false)
    (hx : C.Sim (Alike C) (C.Agrees l l') x y) (htoken : token.Alike C.texts token')
    (hplace : C.At token l l') :
    C.Sim (Alike C) (C.Agrees l l') (if allowed then x else Reading.refuse token l)
      (if allowed' then y else Reading.refuse token' l') := by
  obtain rfl | ⟨hstrict, rfl⟩ := hallow
  · split
    · exact hx
    · exact .refuse htoken hplace
  · exact .of_breaks (.refuse hstrict token l)

/-- A function of the language is no statement by itself. -/
theorem feed_plain_keyword_of_is_function {word : Keyword} (hword : isFunction word = true) :
    (feedPlainKeyword env word l : Reading n Statement Verdict) =
      Reading.refuse (.keyword word) l := by
  cases word with
  | extension code => rfl
  | builtin word => cases word <;> first | rfl | exact absurd hword (by decide)

theorem offer_object_sim (statement : Statement) (hspot : C.spot l l') :
    C.Sim (Expression.Alike C.spot) Eq (offerObject env statement l : Reading n Expression Unit)
      (offerObject env statement l' : Reading m Expression Unit) := by
  unfold offerObject
  split
  · exact .pure rfl
  · exact .bind (Expression.feed_name_sim (C.texts.refl _) hspot) fun _ _ _ =>
      .bind (Expression.feed_special_sim _ hspot) fun _ _ _ => .pure rfl

/-- Reads an expression that may start with a token that has been delivered already. -/
theorem read_started_sim {first first' : Option Token}
    (hfirst : Option.Rel (fun a b => a.Alike C.texts b ∧ C.At a l l') first first') :
    C.Sim (Expression.Alike C.spot) Eq
      (Reading.starting (Expression.feed env (Expression.scan env n)) (Expression.scan env n)
        (first.map (·, l)) >>= fun _ => Expression.finish)
      (Reading.starting (Expression.feed env (Expression.scan env m)) (Expression.scan env m)
        (first'.map (·, l')) >>= fun _ => Expression.finish) := by
  refine .seq (.starting ?_ (fun _ _ _ _ htoken hplace =>
    Expression.feed_sim (Expression.scan_sim n m) htoken hplace)
    (Expression.scan_sim n m)) fun _ => Expression.finish_sim
  cases hfirst with
  | none => exact .none
  | some htoken => exact .some htoken

/-- Shows a value that has been read. -/
theorem show_value_sim (found : ValueType × Code) :
    C.Sim (Alike C) (C.Agrees l l')
      (do
        emit found.2
        emitWith (Assembly.report (if found.1.isFloat then "%f" else "%d"))
        goto .complete : Reading n Statement Verdict)
      (do
        emit found.2
        emitWith (Assembly.report (if found.1.isFloat then "%f" else "%d"))
        goto .complete : Reading m Statement Verdict) :=
  .seq (emit_sim _) fun _ => .seq (emit_with_sim (.report _) _ _) fun _ => goto_sim _ rfl

variable (hC : C.Recovers)

include hC

theorem read_shown_sim {first first' : Option Token}
    (hfirst : Option.Rel (fun a b => a.Alike C.texts b ∧ C.At a l l') first first')
    (hspot : C.spot l l') :
    InStep C n m l l' (readShown env first l) (readShown env first' l') := by
  refine .bind .get ?_
  rintro statement _ ⟨allowExpression, name, rfl, -⟩
  have hoffer : C.Sim (Expression.Alike C.spot) Eq
      (offerObject env statement l : Reading n Expression Unit)
      (offerObject env { statement with allowExpression, name } l' : Reading m Expression Unit) :=
    offer_object_sim statement hspot
  refine .bind (.within hC ⟨_, C.spot_of_place C.place_start, rfl⟩ hoffer) ?_
  rintro ⟨outcome, e⟩ ⟨outcome', e'⟩ ⟨houtcome, he⟩
  have hstarting := read_started_sim (n := n) (m := m) (C := C) hfirst
  cases houtcome with
  | @error reason hstops =>
      cases hfirst with
      | none => exact .abort hstops
      | some htoken => exact .pure (.giveUp htoken.1 htoken.2 hstops)
  | ok h =>
      cases hfirst with
      | none =>
          refine .bind (.of_outcome (.ok h)) fun _ _ _ => .bind (.nested he hstarting) ?_
          rintro ⟨found, _⟩ ⟨_, _⟩ ⟨rfl, -⟩
          exact show_value_sim found
      | some htoken =>
          refine .bind (.of_outcome (.ok h)) fun _ _ _ =>
            .bind (.nested he (.seq (.redeliver htoken.1) fun _ => hstarting)) ?_
          rintro ⟨found, _⟩ ⟨_, _⟩ ⟨rfl, -⟩
          exact show_value_sim found

theorem pass_unknown_sim (hspot : C.spot l l') :
    InStep C n m l l' (passUnknown env l) (passUnknown env l') :=
  .seq (.report_at (hC.reports _) hspot) fun _ => .seq .skip_line fun _ => .pure .done

theorem feed_first_name_sim (hname : C.texts.rel name name') (hspot : C.spot l l') :
    InStep C n m l l' (feedFirstName env name l) (feedFirstName env name' l') := by
  refine .seq .locals fun locals => ?_
  dsimp only
  rw [C.texts.toLower_eq hname]
  split
  · exact .seq (modify_sim (fun _ _ _ => rfl) fun _ => id) fun _ => goto_sim _ rfl
  · refine .bind .get ?_
    rintro statement _ ⟨allowExpression, _, rfl, hallow, -⟩
    refine allow_sim ?_ (read_shown_sim hC (.some ⟨.name hname, hspot⟩) hspot) (.name hname) hspot
    obtain rfl | ⟨hstrict, hfalse⟩ := hallow
    · exact Or.inl rfl
    · exact Or.inr ⟨hstrict, by rw [hfalse, Bool.false_and]⟩

theorem feed_name_sim (hname : C.texts.rel name name') (hspot : C.spot l l') :
    InStep C n m l l' (feedName env name l) (feedName env name' l') := by
  refine .get_bind fun p q s t hs ht hp hrel => ?_
  have hstage : q.stage = p.stage := by
    obtain ⟨_, _, rfl, -⟩ := hp
    rfl
  rw [hstage]
  split
  · exact feed_target_sim hname _ _ _ _ _ _ hp hrel
  next hmember =>
    refine Sim.bind_ends (V := Option.Rel (C.Agrees l l'))
      (feed_member?_ends hname hs ht hp (by rw [hmember]; rfl) hrel) fun found found' hfound => ?_
    cases hfound with
    | none => exact pass_unknown_sim hC hspot
    | some hverdict => exact .pure hverdict
  · exact feed_message_sim hname _ _ _ _ _ _ hp hrel
  · exact feed_message_sim hname _ _ _ _ _ _ hp hrel
  · exact feed_button_sim hname _ _ _ _ _ _ hp hrel
  · exact feed_button_sim hname _ _ _ _ _ _ hp hrel
  · exact feed_first_name_sim hC hname hspot _ _ _ _ _ _ hp hrel
  · exact Sim.refuse (.name hname) hspot _ _ _ _ _ _ hp hrel

theorem feed_declaration_sim (word : Keyword) (hplace : place l l') :
    InStep C n m l l' (feedDeclaration env word l) (feedDeclaration env word l') := by
  unfold feedDeclaration
  split
  · exact .seq (.report (hC.reports _) hplace) fun _ => .seq .skip_line fun _ => .pure .done
  · exact .bind (.nested (R := Eq) rfl (Declaration.read_from_sim hC word hplace)) fun _ _ _ =>
      .pure .done

theorem feed_first_word?_sim (word : Builtin) (hplace : place l l') :
    C.Sim (Alike C) (Option.Rel (C.Agrees l l'))
      (feedFirstWord? env word l : Reading n Statement (Option Verdict))
      (feedFirstWord? env word l' : Reading m Statement (Option Verdict)) := by
  unfold feedFirstWord?
  split
  · exact .map (feed_declaration_sim hC _ hplace) fun _ _ => .some
  · exact .map (feed_declaration_sim hC _ hplace) fun _ _ => .some
  · exact .map (feed_declaration_sim hC _ hplace) fun _ _ => .some
  · exact .map (goto_sim _ rfl) fun _ _ => .some
  · exact .seq (.modify_modes .strict_keywords) fun _ => .map (goto_sim _ rfl) fun _ _ => .some
  · exact .seq (emit_sim _) fun _ => .map (goto_sim _ rfl) fun _ _ => .some
  · exact .map (pass_stray_sim _ (C.spot_of_place hplace)) fun _ _ => .some
  · exact .map (pass_stray_sim _ (C.spot_of_place hplace)) fun _ _ => .some
  · exact .map (pass_stray_sim _ (C.spot_of_place hplace)) fun _ _ => .some
  · exact .pure .none

theorem feed_plain_keyword_sim (word : Keyword) (hplace : place l l') :
    InStep C n m l l' (feedPlainKeyword env word l) (feedPlainKeyword env word l') := by
  cases word with
  | extension code => exact .refuse (.keyword _) hplace
  | builtin builtin =>
      refine .bind (feed_first_word?_sim hC builtin hplace) fun found found' hfound => ?_
      cases hfound with
      | some hverdict => exact .pure hverdict
      | none => exact .refuse (.keyword _) hplace

theorem feed_special_sim (sign : Special) (hspot : C.spot l l') :
    InStep C n m l l' (feedSpecial env sign l) (feedSpecial env sign l') := by
  refine .get_bind fun p q s t hs ht hp hrel => ?_
  obtain ⟨allowExpression, name, rfl, hallow, hname, howner⟩ := id hp
  have hshown : ∀ sign, InStep C n m l l' (readShown env (some (.special sign)) l)
      (readShown env (some (.special sign)) l') :=
    fun sign => read_shown_sim hC (.some ⟨.special sign, hspot⟩) hspot
  dsimp only
  split
  · exact Sim.seq (.warn_at (.same _) hspot) (fun _ => .pure .more) _ _ _ _ _ _ hp hrel
  · exact Sim.pure .done _ _ _ _ _ _ hp hrel
  · exact Sim.pure .done _ _ _ _ _ _ hp hrel
  · exact goto_sim _ rfl _ _ _ _ _ _ hp hrel
  · exact Sim.seq (.warn_at (.same _) hspot) (fun _ => goto_sim _ rfl) _ _ _ _ _ _ hp hrel
  · exact goto_sim _ rfl _ _ _ _ _ _ hp hrel
  · exact Sim.seq (emit_fragment_sim (.message hname _) _ _) (fun _ => .pure .done)
      _ _ _ _ _ _ hp hrel
  · exact Sim.seq (emit_fragment_sim (.message hname _) _ _) (fun _ => .pure .done)
      _ _ _ _ _ _ hp hrel
  · exact goto_sim _ rfl _ _ _ _ _ _ hp hrel
  next hstage =>
    -- The name of the owner has been the same before.
    have hsame : name = p.name := howner (by rw [hstage]; rfl)
    exact .ok .more ⟨allowExpression, name, rfl, hallow, hname, fun _ => hsame⟩ hrel
  · exact allow_sim hallow (.seq (advance_sim _ rfl) fun _ => read_shown_sim hC .none hspot)
      (.special _) hspot _ _ _ _ _ _ hp hrel
  · exact allow_sim hallow (hshown _) (.special _) hspot _ _ _ _ _ _ hp hrel
  · exact allow_sim hallow (hshown _) (.special _) hspot _ _ _ _ _ _ hp hrel
  · exact allow_sim hallow (hshown _) (.special _) hspot _ _ _ _ _ _ hp hrel
  · exact Sim.refuse (.special _) hspot _ _ _ _ _ _ hp hrel

theorem feed_number_sim (htoken : token.Alike C.texts token') (hplace : C.At token l l') :
    InStep C n m l l' (feedNumber env token l) (feedNumber env token' l') := by
  refine .bind .get ?_
  rintro statement _ ⟨allowExpression, name, rfl, hallow, -⟩
  have hshown := allow_sim hallow (read_shown_sim (n := n) (m := m) hC
    (.some ⟨htoken, hplace⟩) hplace.spot) htoken hplace
  dsimp only
  cases statement.stage with
  | begin => exact hshown
  | target =>
      cases htoken with
      | int value => exact feed_target_sim (C.literal_alike hplace)
      | _ => exact .refuse (by constructor <;> assumption) hplace
  | _ => exact .refuse htoken hplace

/-! ### Calls of the host -/

/-- The token calls `PositionCell` if it stands where an instruction may stand. -/
def CallsPosition (env : Environment) (token : Token) (location : Location) : Prop :=
  ∃ code instruction, token = .keyword (.extension code) ∧
    env.extensions.instruction? code = some instruction ∧ isPositionCell location = true

omit hC in
theorem read_call_arguments_sim {ρ : Statement → Statement → Prop} (code : Int)
    (instruction : Extension) (hplace : place l l')
    (hdown : isPositionCell l = true → ∃ C', C.Tolerates C') :
    C.Sim ρ Eq
      (readCallArguments env code instruction l : Reading n Statement (Option (Nat × Code)))
      (readCallArguments env code instruction l' : Reading m Statement (Option (Nat × Code))) := by
  unfold readCallArguments
  rw [show isPositionCell l' = isPositionCell l by
    unfold isPositionCell
    rw [C.texts.map_toLower_eq (C.texts.unquote (C.literal_alike hplace))]]
  split
  next hposition =>
    obtain ⟨C', hC'⟩ := hdown hposition
    have harguments : C'.Sim ρ Eq
        (readArguments env instruction.arguments { ignored := some (.extension code) } :
          Reading n Statement (Nat × Code))
        (readArguments env instruction.arguments { ignored := some (.extension code) } :
          Reading m Statement (Nat × Code)) :=
      ArgumentList.read_sim (Expression.scan_sim n m) _ _
    refine .bind (.attempt_downgraded hC' harguments) fun outcome outcome' houtcome => ?_
    cases houtcome with
    | ok h => exact h ▸ .pure rfl
    | source => exact .seq .skip_line fun _ => .pure rfl
    | @error reason hne hstops =>
        cases reason with
        | source => exact absurd rfl hne
        | endOfFile => exact .abort hstops
        | internal defect => exact .abort hstops
  · exact .map (read_arguments_sim _ _) fun _ _ h => congrArg some h

omit hC in
/-- The rest of a call behind its arguments. -/
theorem complete_call_sim (code : Int) (optionals : Nat) (arguments : Code) :
    C.Sim (Alike C) (C.Agrees l l')
      (do
        emit arguments
        emitFragment (env.extensions.callInstruction code (← get).object optionals)
        goto .complete : Reading n Statement Verdict)
      (do
        emit arguments
        emitFragment (env.extensions.callInstruction code (← get).object optionals)
        goto .complete : Reading m Statement Verdict) := by
  refine .seq (emit_sim _) fun _ => .bind .get ?_
  rintro statement _ ⟨allowExpression, name, rfl, -⟩
  exact .seq (emit_fragment_sim (.call_instruction _ _ _ _) _ _) fun _ => goto_sim _ rfl

omit hC in
theorem feed_call_sim (code : Int) (instruction : Extension) (hplace : place l l')
    (hdown : isPositionCell l = true → ∃ C', C.Tolerates C') :
    InStep C n m l l' (feedCall env code instruction l) (feedCall env code instruction l') := by
  refine .seq (drop_reference_sim _ (C.spot_of_place hplace)) fun _ =>
    .seq (read_call_arguments_sim code instruction hplace hdown) fun found => ?_
  cases found with
  | none => exact .pure .done
  | some found => exact complete_call_sim code found.1 found.2

theorem feed_extension?_sim (word : Keyword) (hplace : place l l')
    (hdown : CallsPosition env (.keyword word) l → ∃ C', C.Tolerates C') :
    C.Sim (Alike C) (Option.Rel (C.Agrees l l'))
      (feedExtension? env word l : Reading n Statement (Option Verdict))
      (feedExtension? env word l' : Reading m Statement (Option Verdict)) := by
  unfold feedExtension?
  split
  · exact .pure .none
  next code =>
    split
    next hinstruction =>
      exact .map (feed_call_sim code _ hplace fun hposition =>
        hdown ⟨code, _, rfl, hinstruction, hposition⟩) fun _ _ => .some
    · exact .seq (drop_reference_sim _ (C.spot_of_place hplace)) fun _ =>
        .map (read_shown_sim hC (.some ⟨.keyword _, hplace⟩) (C.spot_of_place hplace))
          fun _ _ => .some
    · exact .pure .none

theorem feed_other_keyword_sim (word : Keyword) (hplace : place l l')
    (hdown : CallsPosition env (.keyword word) l → ∃ C', C.Tolerates C') :
    InStep C n m l l' (feedOtherKeyword env word l) (feedOtherKeyword env word l') := by
  refine .bind (feed_extension?_sim hC word hplace hdown) fun found found' hfound => ?_
  cases hfound with
  | some hverdict => exact .pure hverdict
  | none =>
      refine .bind .get ?_
      rintro statement _ ⟨allowExpression, name, rfl, hallow, hname, -⟩
      have hplain : C.Sim (Alike C) (C.Agrees l l')
          (if statement.stage = .reference then do
              Reading.warn .strayReference l
              set { statement with stage := .begin, object := "" }
              feedPlainKeyword env word l
            else feedPlainKeyword env word l : Reading n Statement Verdict)
          (if statement.stage = .reference then do
              Reading.warn .strayReference l'
              set { statement with allowExpression, name, stage := .begin, object := "" }
              feedPlainKeyword env word l'
            else feedPlainKeyword env word l' : Reading m Statement Verdict) := by
        split
        · exact .seq (.warn _ hplace) fun _ =>
            .seq (.set ⟨allowExpression, name, rfl, hallow, hname, by rintro ⟨⟩⟩) fun _ =>
            feed_plain_keyword_sim hC word hplace
        · exact feed_plain_keyword_sim hC word hplace
      dsimp only
      obtain rfl | ⟨hstrict, hfalse⟩ := hallow
      · split
        · exact read_shown_sim hC (.some ⟨.keyword word, hplace⟩) (C.spot_of_place hplace)
        · exact hplain
      · have hrefused : ¬(statement.allowExpression && isFunction word) = true := by
          rw [hfalse, Bool.false_and]
          exact Bool.false_ne_true
        rw [if_neg hrefused]
        by_cases hshown : (allowExpression && isFunction word) = true
        · -- On the console the function is called, which a script does not allow.
          have hfunction : isFunction word = true := (Bool.and_eq_true_iff.1 hshown).2
          have hbreaks : C.Breaks (feedPlainKeyword env word l : Reading n Statement Verdict) := by
            rw [feed_plain_keyword_of_is_function hfunction]
            exact .refuse hstrict _ l
          refine .of_breaks ?_
          split
          · exact .warn _ hplace (.set hbreaks)
          · exact hbreaks
        · rw [if_neg hshown]
          exact hplain

theorem feed_first_keyword_sim (word : Keyword) (hplace : place l l')
    (hdown : CallsPosition env (.keyword word) l → ∃ C', C.Tolerates C') :
    InStep C n m l l' (feedFirstKeyword env word l) (feedFirstKeyword env word l') := by
  cases word with
  | extension code => exact feed_other_keyword_sim hC _ hplace hdown
  | builtin builtin =>
      refine .seq (feed_instruction_sim builtin) fun isInstruction => ?_
      cases isInstruction with
      | true => exact .pure .more
      | false => exact feed_other_keyword_sim hC _ hplace hdown

section Pointwise

variable {p q : Statement} {s t : Session} {hs : s.unread ≤ n} {ht : t.unread ≤ m}

theorem feed_keyword_ends (word : Keyword) (hplace : place l l') (hp : Alike C p q)
    (hrel : C.rel s t)
    (hdown : p.stage = .begin ∨ p.stage = .reference → CallsPosition env (.keyword word) l →
      ∃ C', C.Tolerates C') :
    C.Ends (Alike C) (C.Agrees l l')
      ((feedKeyword env word l : Reading n Statement Verdict).run p s hs)
      ((feedKeyword env word l' : Reading m Statement Verdict).run q t ht) := by
  have hliteral := C.literal_alike hplace
  have htext : C.Sim (Alike C) (C.Agrees l l')
      (if isInstruction env word then feedName env (unquote l.literal) l
        else Reading.refuse (.keyword word) l : Reading n Statement Verdict)
      (if isInstruction env word then feedName env (unquote l'.literal) l'
        else Reading.refuse (.keyword word) l' : Reading m Statement Verdict) := by
    split
    · exact feed_name_sim hC (C.texts.unquote hliteral) (C.spot_of_place hplace)
    · exact .refuse (.keyword word) hplace
  have hstage : q.stage = p.stage := by
    obtain ⟨_, _, rfl, -⟩ := hp
    rfl
  unfold feedKeyword
  rw [Reading.run_get_bind, Reading.run_get_bind, hstage]
  split
  · exact htext _ _ _ _ _ _ hp hrel
  · exact htext _ _ _ _ _ _ hp hrel
  · exact htext _ _ _ _ _ _ hp hrel
  · exact htext _ _ _ _ _ _ hp hrel
  · exact feed_target_sim hliteral _ _ _ _ _ _ hp hrel
  next hmember =>
    refine Sim.bind_ends (V := Option.Rel (C.Agrees l l'))
      (feed_member?_ends hliteral hs ht hp (by rw [hmember]; rfl) hrel)
      fun found found' hfound => ?_
    cases hfound with
    | none => exact .refuse (.keyword word) hplace
    | some hverdict => exact .pure hverdict
  next hstage =>
    exact feed_first_keyword_sim hC word hplace (hdown (Or.inl hstage)) _ _ _ _ _ _ hp hrel
  next hstage =>
    exact feed_first_keyword_sim hC word hplace (hdown (Or.inr hstage)) _ _ _ _ _ _ hp hrel
  · split
    · exact feed_assignment_sim hC word hplace _ _ _ _ _ _ hp hrel
    · exact Sim.refuse (.keyword word) hplace _ _ _ _ _ _ hp hrel

/-- Two statements that are offered tokens that are alike agree on them. -/
theorem feed_ends (htoken : token.Alike C.texts token') (hplace : C.At token l l')
    (hp : Alike C p q)
    (hrel : C.rel s t)
    (hdown : p.stage = .begin ∨ p.stage = .reference → CallsPosition env token l →
      ∃ C', C.Tolerates C') :
    C.Ends (Alike C) (C.Agrees l l') ((feed env token l : Reading n Statement Verdict).run p s hs)
      ((feed env token' l' : Reading m Statement Verdict).run q t ht) := by
  cases htoken with
  | int value => exact feed_number_sim hC (.int value) hplace _ _ _ _ _ _ hp hrel
  | float value => exact feed_number_sim hC (.float value) hplace _ _ _ _ _ _ hp hrel
  | name hname => exact feed_name_sim hC hname hplace _ _ _ _ _ _ hp hrel
  | keyword word => exact feed_keyword_ends hC word hplace hp hrel hdown
  | special sign => exact feed_special_sim hC sign hplace _ _ _ _ _ _ hp hrel
  | comment text => exact Sim.refuse (.comment text) hplace _ _ _ _ _ _ hp hrel
  | endOfText => exact Sim.refuse .endOfText hplace _ _ _ _ _ _ hp hrel

end Pointwise

variable (hdown : ∃ C', C.Tolerates C')

include hdown

theorem feed_sim (htoken : token.Alike C.texts token') (hplace : C.At token l l') :
    InStep C n m l l' (feed env token l) (feed env token' l') :=
  fun _ _ _ _ _ _ hp hrel => feed_ends hC htoken hplace hp hrel fun _ _ => hdown

theorem scan_sim :
    ActsAlike C n m (scan env) (scan env) :=
  .scan (fun _ _ _ => rfl) fun _ _ _ _ _ _ _ _ htoken hplace => feed_sim hC hdown htoken hplace

omit hC hdown in
theorem Alike.reset {statement statement' : Statement} (h : Alike C statement statement') :
    Alike C statement.reset statement'.reset := by
  obtain ⟨allowExpression, name, rfl, hallow, -⟩ := h
  exact ⟨allowExpression, "", rfl, hallow, C.texts.refl _, fun _ => rfl⟩

theorem compile_sim (htoken : token.Alike C.texts token') (hplace : C.At token l l') :
    ActsAlike C n m (compile env (some (token, l))) (compile env (some (token', l'))) := by
  have hread : ActsAlike C n m (Reading.starting (feed env) (scan env) (some (token, l)))
      (Reading.starting (feed env) (scan env) (some (token', l'))) :=
    .starting (.some ⟨htoken, hplace⟩)
      (fun _ _ _ _ htoken hplace => feed_sim hC hdown htoken hplace) (scan_sim hC hdown)
  refine .seq (.modify fun _ _ h => h.reset) fun _ => .seq (.recover_line hC hread) fun compiled =>
    .bind .get fun statement statement' h => ?_
  split
  · obtain ⟨allowExpression, name, rfl, hallow, hname⟩ := h
    exact .seq (.set ⟨allowExpression, name, rfl, hallow, hname⟩) fun _ => .pure rfl
  · exact .seq (.set h.reset) fun _ => .pure rfl

end Statement

end QuestScript
