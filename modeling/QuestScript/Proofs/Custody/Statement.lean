import QuestScript.Proofs.Custody.Expression
import QuestScript.Statement

/-!
# Declarations and statements in custody

A declaration or a statement takes its tokens one by one. The only defect that a token can bring
about is that of a message box with too many buttons, at the end of its line. So a statement also
keeps count of the texts that a message box has taken (`Statement.Follows`). The main statements are
`Statement.feed_custody` for one token and `Statement.compile_custody` for a whole line.

The expression that a console statement shows is the one place where a reader is fed tokens by hand
while another token waits: the object in front of it and the sign that joins them. Neither is ever
handed back (`Expression.feed_name_responds`, `Expression.feed_special_responds`).
-/

namespace QuestScript

open Custody

variable {n : Nat} {env : Environment} {C : Custody env} {l : Location} {token : Token}
  {held : Bool}

/-! ### Declarations -/

namespace Declaration

variable {declaration : Declaration}

/-- A name is declared once. -/
theorem declare_custody (type : ValueType) (name : String) :
    C.Keeps (declare type name l : Reading n Declaration Verdict) declaration held
      (C.Answers (fun _ => True) fun _ => True) := by
  intro s hs hholds
  rw [declare, Reading.run_look_bind]
  have hcomplete : C.Keeps (do
      set Declaration.complete
      pure .more : Reading n Declaration Verdict) declaration held
      (C.Answers (fun _ => True) fun _ => True) :=
    .set (.pure trivial)
  split
  · have hwarn : C.Keeps (do
        Reading.warn .redeclaration l
        set Declaration.complete
        pure .more : Reading n Declaration Verdict) declaration held
        (C.Answers (fun _ => True) fun _ => True) := .warn hcomplete
    exact hwarn s hs hholds
  next hnone =>
      rw [Bool.not_eq_true, Option.isSome_eq_false_iff, Option.isNone_iff_eq_none] at hnone
      show C.Leaves _ _ ((do
        set Declaration.complete
        pure .more : Reading n Declaration Verdict).run declaration
          { s with locals := s.locals.declare type (Text.toLower name) } hs)
      obtain hbroken | hdeclared := C.declare type hholds hnone
      · exact .broken (broken_run _ _ hbroken)
      · exact hcomplete _ _ hdeclared

theorem feed_custody :
    C.Keeps (feed env token l : Reading n Declaration Verdict) declaration held
      (C.Answers (fun _ => True) fun _ => True) := by
  refine .get ?_
  split
  · exact .pure trivial
  · exact .refuse
  · exact .warn (Keeps.skip_rest.bind fun _ _ _ _ => .pure trivial)
  · exact declare_custody _ _
  · exact declare_custody _ _
  · exact .report (Keeps.skip_rest.bind fun _ _ _ _ => .set (.pure trivial))
  · split
    · exact .set (.pure trivial)
    · exact .refuse
  · exact .refuse

/-- A declaration starts with a keyword that is in hand. -/
theorem read_from_custody (word : Keyword) :
    C.Keeps (readFrom env word l : Reading n Declaration Unit) declaration true
      fun _ _ _ => True :=
  .starting feed_custody fun _ _ => .scan (fun _ => True) (fun _ _ _ => trivial)
    (fun _ _ _ _ _ _ => feed_custody) trivial

end Declaration

/-! ### Statements in order -/

namespace Statement

/-- The token is a text of a message box: a name, or an instruction of the host that counts as
one. -/
def isText (env : Environment) : Token → Bool
  | .name _ => true
  | .keyword word => isInstruction env word
  | _ => false

/-- The number of texts that a message box has taken, its own text and those of its buttons. -/
def texts? (statement : Statement) : Option Nat :=
  match statement.stage with
  | .message | .messageComma => some 0
  | .button | .buttonComma => some (statement.buttons + 1)
  | _ => none

/-- Nothing is asked of a statement at this stage but code that is in order. -/
def Stage.isPlain : Stage → Bool
  | .begin | .localTarget _ _ | .message | .messageComma | .button | .buttonComma => false
  | _ => true

/-- The code of the statement is in order, and so is the local variable that it sets. An object
stands only in front of something. -/
structure InOrder (C : Custody env) (statement : Statement) : Prop where
  code : C.Codes statement.code
  target : ∀ type index, statement.stage = .localTarget type index → C.allowed type index
  object : statement.stage = .begin → statement.object = ""

/-- What a token makes of a statement: if it is a message box, it has just been opened or has taken
one text more if the token is one. -/
structure Follows (C : Custody env) (statement : Statement) (token : Token) (q : Statement) :
    Prop extends InOrder C q where
  texts : ∀ count, q.texts? = some count →
    token = .keyword (.builtin .messageBox) ∧ count = 0 ∨
      ∃ earlier, statement.texts? = some earlier ∧
        count = earlier + (if isText env token then 1 else 0)

/-- A statement that is over has code that is in order. -/
abbrev Ended (C : Custody env) (statement : Statement) : Prop :=
  C.Codes statement.code

variable {statement q : Statement}

theorem in_order_reset : statement.reset.InOrder C :=
  ⟨.nil, by rintro _ _ ⟨⟩, fun _ => rfl⟩

/-- At most stages a statement is in order if its code is. -/
theorem Follows.of_plain (hcode : q.Ended C) (hplain : q.stage.isPlain = true) :
    Follows C statement token q := by
  have hnone : q.texts? = none := by
    unfold texts?
    revert hplain
    cases q.stage <;> simp [Stage.isPlain]
  refine ⟨⟨hcode, fun type index hstage => ?_, fun hstage => ?_⟩, fun count hcount => ?_⟩
  · rw [hstage] at hplain
    cases hplain
  · rw [hstage] at hplain
    cases hplain
  · rw [hnone] at hcount
    cases hcount

/-- A stage of a message box. -/
theorem Follows.of_texts (count : Nat) (hcode : q.Ended C) (hq : q.texts? = some count)
    (htexts : token = .keyword (.builtin .messageBox) ∧ count = 0 ∨
      ∃ earlier, statement.texts? = some earlier ∧
        count = earlier + (if isText env token then 1 else 0)) :
    Follows C statement token q := by
  refine ⟨⟨hcode, fun type index hstage => ?_, fun hstage => ?_⟩, fun count' hcount => ?_⟩
  · rw [texts?, hstage] at hq
    cases hq
  · rw [texts?, hstage] at hq
    cases hq
  · rw [hq] at hcount
    cases hcount
    exact htexts

/-- The statement, now at `q`, takes the token in hand. -/
abbrev TakesToken (C : Custody env) (n : Nat) (x : Reading n Statement Verdict)
    (statement q : Statement) (token : Token) : Prop :=
  C.Keeps x q true (C.Answers (Follows C statement token) (Ended C))

/-- A word has been taken with an answer, or it is still in hand. -/
def Tried (C : Custody env) (statement start : Statement) (token : Token) :
    Option Verdict → Statement → Bool → Prop
  | some verdict, q, held => C.Answers (Follows C statement token) (Ended C) verdict q held
  | none, q, held => q = start ∧ held = true

/-- To go on to a stage at which nothing is asked of a statement. -/
theorem goto_custody {stage : Stage} (hcode : q.Ended C) (hplain : stage.isPlain = true) :
    C.Keeps (goto stage : Reading n Statement Verdict) q held
      (C.Answers (Follows C statement token) (Ended C)) :=
  .modify (.pure (Follows.of_plain hcode hplain))

section Emit

variable {β : Type} {k : PUnit → Reading n Statement β} {post : β → Statement → Bool → Prop}
  {err : Statement → Bool → Prop}

theorem emit_with_custody {make : Literals → Code × Literals}
    {within : ∀ pool : Literals, pool.Within (make pool).2} (hcode : q.Ended C)
    (hmake : ∀ pool, C.Codes (make pool).1)
    (h : ∀ code, C.Codes (q.code ++ code) →
      C.Keeps (k ⟨⟩) { q with code := q.code ++ code } held post err) :
    C.Keeps (emitWith make within >>= k) q held post err := by
  rw [emitWith, bind_assoc]
  exact .with_literals fun pool => .modify (h _ (hcode.append (hmake pool)))

/-- Emits what a fragment has, which meets no defect but those that may be met. -/
theorem emit_fragment_custody {make : Literals → Fragment × Literals}
    {within : ∀ pool : Literals, pool.Within (make pool).2} (hcode : q.Ended C)
    (hmake : ∀ pool, C.Codes (make pool).1.code)
    (herror : ∀ pool defect, (make pool).1.toExcept = .error defect → C.defects defect)
    (herr : ∀ q, err q held)
    (h : ∀ code, C.Codes (q.code ++ code) →
      C.Keeps (k ⟨⟩) { q with code := q.code ++ code } held post err) :
    C.Keeps (emitFragment make within >>= k) q held post err := by
  rw [emitFragment, bind_assoc]
  refine .with_literals fun pool => ?_
  rw [bind_assoc]
  refine .modify ?_
  rw [bind_assoc]
  exact .of_defect (herror pool) (herr _) fun _ _ => h _ (hcode.append (hmake pool))

end Emit

/-! ### What a statement reads -/

theorem read_arguments_custody (manner : ArgumentList.Manner) {signature : String}
    (hletters : (∀ letter ∈ signature.toList, letter ∈ Signature.letters) ∨
      ∀ defect, C.defects defect) :
    C.Keeps (readArguments env signature manner : Reading n Statement (Nat × Code)) q held
      (fun found q' _ => C.Codes found.2 ∧
        found.1 ≤ (Signature.behindStroke signature.toList).length ∧ q' = q)
      (ArgumentList.Unmoved q) :=
  ArgumentList.read_custody (fun he => Expression.scan_custody env n he) manner hletters

/-- Reads arguments that all have to be there. -/
theorem read_plain_arguments_custody (manner : ArgumentList.Manner) {signature : String}
    (hletters : ∀ letter ∈ signature.toList, letter ∈ Signature.letters) :
    C.Keeps (readArguments env signature manner : Reading n Statement (Nat × Code)) q held
      fun found q' _ => C.Codes found.2 ∧ q' = q :=
  (read_arguments_custody manner (Or.inl hletters)).imp (fun _ _ _ h => ⟨h.1, h.2.2⟩)
    fun _ _ _ => trivial

theorem read_value_custody :
    C.Keeps (readValue env : Reading n Statement (ValueType × Code)) q held
      fun found q' _ => C.Codes found.2 ∧ q' = q := by
  have hread : C.Keeps (do
      Expression.scan env n
      Expression.finish) ({} : Expression) held fun found _ _ => C.Codes found.2 :=
    (Expression.scan_custody env n (Expression.in_order_of_fresh rfl rfl rfl)).bind
      fun _ _ _ he => Expression.finish_custody he
  exact .nested hread (fun _ => trivial) fun _ _ _ hfound => .pure ⟨hfound, rfl⟩

/-- What the offers by hand leave: the token behind the object is still in hand. -/
theorem offer_object_custody :
    C.Keeps (offerObject env q l : Reading n Expression Unit) {} true
      (fun _ e held => e.InOrder C ∧ held = true) StillHeld := by
  have hheld : ∀ e : Expression, StillHeld e true := fun _ => rfl
  have hfresh : ({} : Expression).InOrder C := Expression.in_order_of_fresh rfl rfl rfl
  unfold offerObject
  split
  · exact .pure ⟨hfresh, rfl⟩
  · refine (Expression.feed_name_custody hheld q.object hfresh).bind ?_
    rintro _ e _ ⟨he, rfl, -⟩
    refine (Expression.feed_special_custody hheld he).bind ?_
    rintro _ e _ ⟨he, rfl, -⟩
    exact .pure ⟨he, rfl⟩

/-- To offer the object stops for no other reason than a reported error. -/
theorem outcome_offer_object {s : Session} {h : s.unread ≤ n} {reason : Abort}
    (herror : ((offerObject env q l : Reading n Expression Unit).run {} s h).outcome =
      .error reason) : reason = .source := by
  unfold offerObject at herror
  split at herror
  · cases herror
  · have hresponds := Expression.feed_name_responds env l q.object s h
    have hle := (Expression.feedName env q.object l).unread_run_le {} s h
    rcases hname : (Expression.feedName env q.object l).run {} s h with ⟨outcome, e, t⟩
    rw [hname] at hresponds hle
    obtain ⟨hmore, hoptional⟩ := hresponds
    obtain rfl : outcome = .ok .more := hmore
    rw [Reading.run_bind_of_ok hname (Nat.le_trans hle h)] at herror
    generalize hjoint : (if q.stage = .member then Special.member else .reference) = joint
      at herror
    replace hjoint : joint = .member ∨ joint = .reference := by
      subst hjoint
      split
      · exact Or.inl rfl
      · exact Or.inr rfl
    have hsecond := Expression.feed_special_responds (l := l) hjoint hoptional t
      (Nat.le_trans hle h)
    rw [Reading.run_bind] at herror
    obtain hsecond | hsecond := hsecond
    · simp only [hsecond] at herror
      cases herror
    · simp only [hsecond] at herror
      cases herror
      rfl

/-- The expression to show is read while its first token is in hand. -/
theorem read_shown_custody (first : Option Token) (hcode : q.Ended C) :
    TakesToken C n (readShown env first l) statement q token := by
  have hshow (found : ValueType × Code) (hfound : C.Codes found.2) (held : Bool) :
      C.Keeps (do
        emit found.2
        emitWith (Assembly.report (if found.1.isFloat then "%f" else "%d"))
        goto .complete : Reading n Statement Verdict) q held
        (C.Answers (Follows C statement token) (Ended C)) :=
    .modify (emit_with_custody (hcode.append hfound)
      (fun pool => .of_plain (Assembly.plain_report _ pool)) fun _ hcode => goto_custody hcode rfl)
  unfold readShown
  refine .get (.within offer_object_custody ?_ ?_ ?_)
  · rintro _ e _ ⟨he, rfl⟩
    have hread : C.Keeps (do
        Reading.starting (Expression.feed env (Expression.scan env n)) (Expression.scan env n)
          (first.map (·, l))
        Expression.finish) e true fun found _ _ => C.Codes found.2 :=
      (Expression.starting_custody he).bind fun _ _ _ he => Expression.finish_custody he
    cases first with
    | none =>
        exact .nested hread (fun _ => trivial)
          fun found _ held hfound => hshow found hfound held
    | some back =>
        exact .nested (.redeliver hread) (fun _ => trivial)
          fun found _ held hfound => hshow found hfound held
  -- The object starts no expression. The token in hand goes back, if there is one.
  · rintro e _ rfl
    cases first with
    | none => exact fun _ _ hholds => .source trivial hholds
    | some back => exact .pure ⟨rfl, trivial⟩
  · rintro reason _ hsource - ⟨s, hs, herror⟩
    exact absurd (outcome_offer_object herror) hsource

/-! ### Names -/

theorem pass_unknown_custody (hcode : q.Ended C) :
    TakesToken C n (passUnknown env l) statement q token := by
  refine .report (Keeps.skip_line.bind ?_)
  rintro _ _ _ rfl
  exact .pure hcode

theorem feed_target_custody (name : String) (hcode : q.Ended C) :
    TakesToken C n (feedTarget env name) statement q token := by
  refine .look fun s hholds => .modify ?_
  split
  next type htype =>
      refine .modify (.pure ⟨⟨hcode, ?_, by rintro ⟨⟩⟩, by rintro _ ⟨⟩⟩)
      rintro _ _ ⟨⟩
      exact C.allowed_of_holds hholds htype
  next =>
      split
      · exact goto_custody hcode rfl
      · exact goto_custody hcode rfl

theorem feed_member_custody (statement : Statement) (token : Token) (name : String)
    (hcode : q.Ended C) :
    C.Keeps (feedMember? env name : Reading n Statement (Option Verdict)) q true
      (Tried C statement q token) := by
  refine .get ?_
  split
  · exact .modify (.map (goto_custody hcode rfl))
  · exact .pure ⟨rfl, rfl⟩

/-- The text of a message box, with the values for its placeholders. -/
theorem feed_message_custody (text : String) (htoken : isText env token = true)
    (hstage : statement.stage = .message ∨ statement.stage = .messageComma)
    (hcode : statement.Ended C) :
    TakesToken C n (feedMessage env text) statement statement token := by
  have htexts : statement.texts? = some 0 := by
    obtain hstage | hstage := hstage <;> rw [texts?, hstage]
  have hgoto {q : Statement} (hcode : q.Ended C) (held : Bool) : C.Keeps (do
      modify ({ · with name := text, buttons := 0 })
      goto .button : Reading n Statement Verdict) q held
      (C.Answers (Follows C statement token) (Ended C)) :=
    .modify (.modify (.pure (Follows.of_texts 1 hcode rfl
      (Or.inr ⟨0, htexts, by rw [htoken]; rfl⟩))))
  unfold feedMessage
  dsimp only
  split
  · exact hgoto hcode true
  · refine (read_plain_arguments_custody _ fun letter hletter => ?_).bind ?_
    · have hmem := MessageFormat.mem_signature hletter
      simp only [List.mem_cons, List.not_mem_nil, or_false] at hmem
      obtain rfl | rfl | rfl := hmem <;> decide
    · rintro found _ held ⟨hfound, rfl⟩
      exact .modify (hgoto (hcode.append hfound) held)

theorem feed_button_custody (text : String) (htoken : isText env token = true)
    (hstage : statement.stage = .button ∨ statement.stage = .buttonComma)
    (hcode : statement.Ended C) :
    TakesToken C n (feedButton text) statement statement token := by
  have htexts : statement.texts? = some (statement.buttons + 1) := by
    obtain hstage | hstage := hstage <;> rw [texts?, hstage]
  refine emit_with_custody hcode (fun pool => .of_plain (Assembly.plain_push_string _ pool))
    fun code hcode => .modify (.modify (.pure ?_))
  exact Follows.of_texts (statement.buttons + 2) hcode rfl
    (Or.inr ⟨_, htexts, by rw [htoken]; rfl⟩)

theorem feed_first_name_custody (name : String) (hcode : q.Ended C) :
    TakesToken C n (feedFirstName env name l) statement q token := by
  refine .look fun s hholds => ?_
  dsimp only
  split
  · exact .modify (goto_custody hcode rfl)
  · refine .get ?_
    split
    · exact read_shown_custody _ hcode
    · exact .refuse

theorem feed_name_custody (name : String) (htoken : isText env token = true)
    (hcode : statement.Ended C) :
    TakesToken C n (feedName env name l) statement statement token := by
  refine .get ?_
  split
  · exact feed_target_custody name hcode
  · refine (feed_member_custody statement token name hcode).bind fun found q held hfound => ?_
    cases found with
    | some verdict => exact .pure hfound
    | none =>
        obtain ⟨rfl, rfl⟩ := hfound
        exact pass_unknown_custody hcode
  next hstage => exact feed_message_custody name htoken (Or.inl hstage) hcode
  next hstage => exact feed_message_custody name htoken (Or.inr hstage) hcode
  next hstage => exact feed_button_custody name htoken (Or.inl hstage) hcode
  next hstage => exact feed_button_custody name htoken (Or.inr hstage) hcode
  · exact feed_first_name_custody name hcode
  · exact .refuse

/-! ### Instructions -/

/-- An instruction of the language has been taken, or the word is still in hand. -/
theorem feed_instruction_custody (token : Token) (word : Builtin) (hcode : statement.Ended C) :
    C.Keeps (feedInstruction env word : Reading n Statement Bool) statement true
      fun found q held =>
        if found then Follows C statement token q else q = statement ∧ held = true := by
  have hcomplete {q : Statement} (hcode : q.Ended C) (held : Bool) : C.Keeps (do
      let _ ← goto .complete
      pure true : Reading n Statement Bool) q held fun found q held =>
        if found then Follows C statement token q else q = statement ∧ held = true := by
    have hfollows : Follows C statement token { q with stage := .complete } :=
      .of_plain hcode rfl
    exact fun _ _ hholds => .ok (a := true) hfollows hholds
  have hletters : ∀ letter ∈ "c".toList, letter ∈ Signature.letters := by
    simp [Signature.letters]
  have hreference (id : String) (plain explicit : Opcode) (pool : Literals)
      (hplain : plain.isLocalAccess = false) (hexplicit : explicit.isLocalAccess = false) :
      C.Codes (Assembly.withReference id plain explicit pool).1 :=
    .of_plain (Assembly.plain_with_reference hplain hexplicit)
  refine .get ?_
  dsimp only
  split
  · exact emit_with_custody hcode (fun pool => hreference _ _ _ pool rfl rfl)
      fun _ hcode => hcomplete hcode true
  · exact emit_with_custody hcode (fun pool => hreference _ _ _ pool rfl rfl)
      fun _ hcode => hcomplete hcode true
  · refine (read_plain_arguments_custody _ hletters).bind ?_
    rintro found _ held ⟨hfound, rfl⟩
    exact .modify (emit_with_custody (hcode.append hfound)
      (fun pool => hreference _ _ _ pool rfl rfl) fun _ hcode => hcomplete hcode held)
  · split
    · exact .pure ⟨rfl, rfl⟩
    · refine (read_plain_arguments_custody _ hletters).bind ?_
      rintro found _ held ⟨hfound, rfl⟩
      refine .modify (.modify (hcomplete ((hcode.append hfound).append (.of_plain ?_)) held))
      simp [Opcode.isLocalAccess]
  · exact .pure ⟨rfl, rfl⟩

/-- Only an entry that takes an object keeps the one that has been read. -/
theorem drop_reference_custody (extension : Extension) (h : q.InOrder C)
    (hstage : q.stage = .begin ∨ q.stage = .reference) :
    C.Keeps (dropReference extension l : Reading n Statement Unit) q true fun _ q' held =>
      q'.Ended C ∧ (q'.object ≠ "" → extension.hasExplicit = true) ∧ held = true := by
  refine .get ?_
  split
  · exact .warn (.modified ⟨h.code, fun hne => absurd rfl hne, rfl⟩)
  next hkept =>
      refine .pure ⟨h.code, fun hne => ?_, rfl⟩
      obtain hstage | hstage := hstage
      · exact absurd (h.object hstage) hne
      · simpa [hstage] using hkept

/-- The arguments of an instruction of the host have been read, or the line is over. -/
theorem read_call_arguments_custody (code : Int) {instruction : Extension}
    (hletters : (∀ letter ∈ instruction.arguments.toList, letter ∈ Signature.letters) ∨
      ∀ defect, C.defects defect) :
    C.Keeps (readCallArguments env code instruction l : Reading n Statement _) q held
      fun found q' _ => q' = q ∧ ∀ arguments, found = some arguments → C.Codes arguments.2 ∧
        arguments.1 ≤ (Signature.behindStroke instruction.arguments.toList).length := by
  unfold readCallArguments
  dsimp only
  split
  · refine .attempt (read_arguments_custody _ hletters).downgraded ?_ ?_ ?_
    · rintro found _ _ ⟨hfound, hle, rfl⟩
      refine .pure ⟨rfl, ?_⟩
      rintro _ ⟨⟩
      exact ⟨hfound, hle⟩
    · rintro _ _ rfl
      refine Keeps.skip_line.bind ?_
      rintro _ _ _ rfl
      exact .pure ⟨rfl, by rintro _ ⟨⟩⟩
    · intro reason q hsource hreason
      cases reason with
      | source => exact absurd rfl hsource
      | endOfFile | internal defect => exact .abort hreason trivial
  · refine .map ((read_arguments_custody _ hletters).imp ?_ fun _ _ _ => trivial)
    rintro found _ _ ⟨hfound, hle, rfl⟩
    refine ⟨rfl, ?_⟩
    rintro _ ⟨⟩
    exact ⟨hfound, hle⟩

theorem feed_call_custody {code : Int} {instruction : Extension}
    (hinstruction : env.extensions.instruction? code = some instruction)
    (h : statement.InOrder C) (hstage : statement.stage = .begin ∨ statement.stage = .reference) :
    TakesToken C n (feedCall env code instruction l) statement statement token := by
  have hletters : (∀ letter ∈ instruction.arguments.toList, letter ∈ Signature.letters) ∨
      ∀ defect, C.defects defect :=
    C.regular.imp_left fun h => (h code instruction (Or.inr hinstruction)).letters
  refine (drop_reference_custody instruction h hstage).bind ?_
  rintro _ q _ ⟨hcode, hobject, rfl⟩
  refine (read_call_arguments_custody code hletters).bind ?_
  rintro found _ held ⟨rfl, hfound⟩
  cases found with
  | none => exact .pure hcode
  | some arguments =>
      obtain ⟨harguments, hle⟩ := hfound arguments rfl
      refine .modify (.get ?_)
      dsimp only
      rw [emit_fragment_call_instruction hinstruction]
      refine emit_fragment_custody (hcode.append harguments)
        (fun pool => .of_call (Or.inr hinstruction) _ _ pool)
        (defects_of_call (Or.inr hinstruction) hle hobject) (fun _ => trivial)
        fun code hcode => goto_custody hcode rfl

theorem feed_extension_custody (token : Token) (word : Keyword) (h : statement.InOrder C)
    (hstage : statement.stage = .begin ∨ statement.stage = .reference) :
    C.Keeps (feedExtension? env word l : Reading n Statement (Option Verdict)) statement true
      (Tried C statement statement token) := by
  unfold feedExtension?
  split
  · exact .pure ⟨rfl, rfl⟩
  · split
    next hinstruction => exact .map (feed_call_custody hinstruction h hstage)
    · refine (drop_reference_custody _ h hstage).bind ?_
      rintro _ q _ ⟨hcode, -, rfl⟩
      exact .map (read_shown_custody _ hcode)
    · exact .pure ⟨rfl, rfl⟩

/-! ### Keywords -/

theorem feed_declaration_custody (word : Keyword) (hcode : q.Ended C) :
    TakesToken C n (feedDeclaration env word l) statement q token := by
  unfold feedDeclaration
  split
  · refine .report (Keeps.skip_line.bind ?_)
    rintro _ _ _ rfl
    exact .pure hcode
  · exact .nested (Declaration.read_from_custody word) (fun _ => trivial)
      fun _ _ _ _ => .pure hcode

theorem feed_first_word_custody (statement : Statement) (word : Builtin) (hcode : q.Ended C) :
    C.Keeps (feedFirstWord? env word l : Reading n Statement (Option Verdict)) q true
      (Tried C statement q (.keyword (.builtin word))) := by
  unfold feedFirstWord?
  split
  · exact .map (feed_declaration_custody _ hcode)
  · exact .map (feed_declaration_custody _ hcode)
  · exact .map (feed_declaration_custody _ hcode)
  · exact .map (goto_custody hcode rfl)
  · refine .modify_modes (.map (.modify (.pure ?_)))
    exact Follows.of_texts 0 hcode rfl (Or.inl ⟨rfl, rfl⟩)
  · refine .modify (.map (goto_custody (hcode.append (.of_plain ?_)) rfl))
    simp [Opcode.isLocalAccess]
  · exact .map (.warn (goto_custody hcode rfl))
  · exact .map (.warn (goto_custody hcode rfl))
  · exact .map (.warn (goto_custody hcode rfl))
  · exact .pure ⟨rfl, rfl⟩

theorem feed_plain_keyword_custody (statement : Statement) (word : Keyword) (hcode : q.Ended C) :
    TakesToken C n (feedPlainKeyword env word l) statement q (.keyword word) := by
  unfold feedPlainKeyword
  cases word with
  | builtin builtin =>
      refine (feed_first_word_custody statement builtin hcode).bind fun found q held hfound => ?_
      cases found with
      | some verdict => exact .pure hfound
      | none => exact .refuse
  | extension code => exact .refuse

theorem feed_other_keyword_custody (word : Keyword) (h : statement.InOrder C)
    (hstage : statement.stage = .begin ∨ statement.stage = .reference) :
    TakesToken C n (feedOtherKeyword env word l) statement statement (.keyword word) := by
  refine (feed_extension_custody (.keyword word) word h hstage).bind fun found q held hfound => ?_
  cases found with
  | some verdict => exact .pure hfound
  | none =>
      obtain ⟨rfl, rfl⟩ := hfound
      refine .get ?_
      dsimp only
      split
      · exact read_shown_custody _ h.code
      split
      · exact .warn (.set (feed_plain_keyword_custody q word h.code))
      · exact feed_plain_keyword_custody q word h.code

theorem feed_first_keyword_custody (word : Keyword) (h : statement.InOrder C)
    (hstage : statement.stage = .begin ∨ statement.stage = .reference) :
    TakesToken C n (feedFirstKeyword env word l) statement statement (.keyword word) := by
  unfold feedFirstKeyword
  cases word with
  | builtin builtin =>
      refine (feed_instruction_custody (.keyword (.builtin builtin)) builtin h.code).bind
        fun found q held hfound => ?_
      cases found with
      | true => exact .pure hfound
      | false =>
          obtain ⟨rfl, rfl⟩ := hfound
          exact feed_other_keyword_custody _ h hstage
  | extension code => exact feed_other_keyword_custody _ h hstage

theorem feed_assignment_custody (word : Keyword) (h : statement.InOrder C) :
    TakesToken C n (feedAssignment env word l) statement statement token := by
  refine .get ?_
  split
  next type index hstage =>
      refine read_value_custody.bind ?_
      rintro value _ held ⟨hvalue, rfl⟩
      refine .modify (goto_custody (h.code.append fun htracked => ?_) rfl)
      exact .of_store (h.target type index hstage) (hvalue htracked)
  · refine read_value_custody.bind ?_
    rintro value _ held ⟨hvalue, rfl⟩
    exact emit_with_custody h.code (fun pool htracked => Assembly.assign_to_global_accesses_only
      (hvalue htracked) _ _ _ pool) fun _ hcode => goto_custody hcode rfl
  · refine read_value_custody.bind ?_
    rintro value _ held ⟨hvalue, rfl⟩
    exact emit_with_custody h.code (fun pool htracked => Assembly.assign_to_member_accesses_only
      (hvalue htracked) _ _ _ _ _ pool) fun _ hcode => goto_custody hcode rfl
  · exact pass_unknown_custody h.code
  · exact .refuse

theorem feed_keyword_custody (word : Keyword) (h : statement.InOrder C) :
    TakesToken C n (feedKeyword env word l) statement statement (.keyword word) := by
  have htext : C.Keeps (if isInstruction env word then feedName env (unquote l.literal) l
      else Reading.refuse (.keyword word) l : Reading n Statement Verdict) statement true
      (C.Answers (Follows C statement (.keyword word)) (Ended C)) := by
    split
    next hinstruction => exact feed_name_custody _ hinstruction h.code
    · exact .refuse
  refine .get ?_
  split
  · exact htext
  · exact htext
  · exact htext
  · exact htext
  · exact feed_target_custody _ h.code
  · refine (feed_member_custody statement (.keyword word) _ h.code).bind
      fun found q held hfound => ?_
    cases found with
    | some verdict => exact .pure hfound
    | none => exact .refuse
  next hstage => exact feed_first_keyword_custody word h (Or.inl hstage)
  next hstage => exact feed_first_keyword_custody word h (Or.inr hstage)
  · split
    · exact feed_assignment_custody word h
    · exact .refuse

/-! ### Other tokens -/

/-- The end of the line completes a message box, unless it has too many buttons. -/
theorem close_message_custody (hbuttons : 256 ≤ statement.buttons → C.defects .tooManyButtons)
    (hcode : statement.Ended C) :
    TakesToken C n (do
      emitFragment (Assembly.message statement.name statement.buttons)
      pure .done) statement statement (.special .newline) := by
  refine emit_fragment_custody hcode (fun pool => .of_plain (Assembly.plain_message _ _ pool))
    (fun pool defect herror => ?_) (fun _ => trivial) fun _ hcode => .pure hcode
  unfold Assembly.message at herror
  split at herror
  next hmany =>
      cases herror
      exact hbuttons hmany
  next => cases herror

theorem feed_special_custody (sign : Special)
    (hbuttons : ∀ count, statement.texts? = some count → 256 < count → sign = .newline →
      C.defects .tooManyButtons) (h : statement.InOrder C) :
    TakesToken C n (feedSpecial env sign l) statement statement (.special sign) := by
  have hcomma (stage : Stage) (count : Nat) (hcount : statement.texts? = some count)
      (hnext : ({ statement with stage } : Statement).texts? = some count) :
      TakesToken C n (goto stage) statement statement (.special sign) :=
    .modify (.pure (Follows.of_texts count h.code hnext (Or.inr ⟨count, hcount, rfl⟩)))
  have hshown : C.Keeps (if statement.allowExpression then readShown env (some (.special sign)) l
      else Reading.refuse (.special sign) l : Reading n Statement Verdict) statement true
      (C.Answers (Follows C statement (.special sign)) (Ended C)) := by
    split
    · exact read_shown_custody _ h.code
    · exact .refuse
  refine .get ?_
  split
  next hstage => exact .warn (.pure (Follows.of_plain h.code (by rw [hstage]; rfl)))
  · exact .pure h.code
  · exact .pure h.code
  next hstage => exact hcomma _ 0 (by rw [texts?, hstage]) rfl
  · exact .warn (goto_custody h.code rfl)
  · exact goto_custody h.code rfl
  next hstage =>
      refine close_message_custody (fun hmany => ?_) h.code
      exact hbuttons _ (by rw [texts?, hstage]) (Nat.lt_succ_of_le hmany) rfl
  next hstage =>
      refine close_message_custody (fun hmany => ?_) h.code
      exact hbuttons _ (by rw [texts?, hstage]) (Nat.lt_succ_of_le hmany) rfl
  next hstage => exact hcomma _ (statement.buttons + 1) (by rw [texts?, hstage]) rfl
  · exact goto_custody h.code rfl
  · split
    · have hmember : TakesToken C n (readShown env none l) statement
          { statement with stage := .member } (.special .member) :=
        read_shown_custody none h.code
      exact hmember
    · exact .refuse
  · exact hshown
  · exact hshown
  · exact hshown
  · exact .refuse

theorem feed_number_custody (hcode : statement.Ended C) :
    TakesToken C n (feedNumber env token l) statement statement token := by
  refine .get ?_
  split
  · split
    · exact read_shown_custody _ hcode
    · exact .refuse
  · exact feed_target_custody _ hcode
  · exact .refuse

/-- Takes a token. No token brings about a defect, apart from that of a message box with too many
buttons. -/
theorem feed_custody (hbuttons : ∀ count, statement.texts? = some count → 256 < count →
      token = .special .newline → C.defects .tooManyButtons) (h : statement.InOrder C) :
    TakesToken C n (feed env token l) statement statement token := by
  unfold feed
  split
  · exact feed_number_custody h.code
  · exact feed_number_custody h.code
  · exact feed_name_custody _ rfl h.code
  · exact feed_keyword_custody _ h
  · refine feed_special_custody _ (fun count hcount hlt hsign => ?_) h
    exact hbuttons count hcount hlt (congrArg Token.special hsign)
  · exact .refuse
  · exact .refuse

/-! ### Lines -/

/-- A line may start with a token that is in hand. -/
theorem compile_custody (hbuttons : C.defects .tooManyButtons) :
    C.Keeps (compile env (some (token, l)) : Reading n Statement (Bool × Code)) statement true
      fun found _ _ => C.Codes found.2 := by
  have hfeed {m : Nat} {token : Token} {l : Location} {q : Statement} (hq : q.InOrder C) :
      C.Keeps (feed env token l : Reading m Statement Verdict) q true
        (C.Answers (InOrder C) (Ended C)) := by
    refine (feed_custody (fun _ _ _ _ => hbuttons) hq).imp (fun verdict q held h => ?_)
      fun _ _ h => h
    cases verdict with
    | more => exact h.toInOrder
    | done | handBack | giveUp => exact h
  have hread : C.Keeps (Reading.starting (feed env) (scan env) (some (token, l)) :
      Reading n Statement Unit) statement.reset true fun _ q _ => q.Ended C :=
    .starting (hfeed in_order_reset) fun q hq =>
      .scan (InOrder C) (by rintro _ _ ⟨⟩) (fun _ _ _ _ _ h => hfeed h) hq
  refine .modify (hread.recover_line.bind fun compiled q _ hq => .get ?_)
  cases compiled with
  | true => exact .set (.pure (hq rfl))
  | false => exact .set (.pure .nil)

end Statement

end QuestScript
