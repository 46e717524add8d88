import QuestScript.Expression.Reader
import QuestScript.Proofs.Custody.Basic

/-!
# Arguments and expressions in custody

The readers of arguments and expressions give a token back only while it is in hand, since all that
is read for it is read after it has been taken. They meet no defect, because an expression stays in
balance (`Expression.Balanced`) and the letters of a signature have a meaning. The main statements
are `ArgumentList.read_custody` and `Expression.scan_custody`.
-/

namespace QuestScript

open Custody

variable {n : Nat} {env : Environment} {C : Custody env} {l : Location} {token : Token}
  {held : Bool}

/-! ### Arguments -/

namespace TextArgument

/-- The code of the argument is in order. -/
abbrev InOrder (C : Custody env) (argument : TextArgument) : Prop :=
  C.Codes argument.code

variable {argument : TextArgument}

/-- A text is pushed, unless it is to be dropped. -/
theorem accept_custody (text : String) (h : argument.InOrder C) :
    C.Keeps (accept text l : Reading n TextArgument Verdict) argument true
      (C.Answers (InOrder C) (InOrder C)) := by
  refine .modify (.get ?_)
  dsimp only
  split
  · exact .pure h
  · refine .with_literals fun pool => .set (.pure ?_)
    exact h.append (.of_plain (Assembly.plain_push_string _ pool))

theorem feed_custody (h : argument.InOrder C) :
    C.Keeps (feed env token l : Reading n TextArgument Verdict) argument true
      (C.Answers (InOrder C) (InOrder C)) := by
  refine .get ?_
  cases token with
  | name text => exact accept_custody _ h
  | keyword word =>
      dsimp only
      split
      · exact accept_custody _ h
      · exact .refuse_optional h
  | int value => exact .warn (accept_custody _ h)
  | special sign =>
      cases sign with
      | comma =>
          dsimp only
          split
          · exact .set (.pure h)
          · exact .refuse_optional h
      | _ => exact .refuse_optional h
  | float | comment | endOfText => exact .refuse_optional h

theorem scan_custody (h : argument.InOrder C) :
    C.Keeps (scan env : Reading n TextArgument Unit) argument held
      fun _ argument _ => argument.InOrder C :=
  .scan (InOrder C) (by rintro _ _ ⟨⟩) (fun _ _ _ _ _ h => feed_custody h) h

end TextArgument

theorem DroppedArgument.scan_custody {argument : DroppedArgument} :
    C.Keeps (scan env : Reading n DroppedArgument Unit) argument held fun _ _ _ => True := by
  refine .scan (fun _ => True) (by rintro _ _ ⟨⟩) ?_ trivial
  intro m hm argument token l _
  refine .get ?_
  cases token with
  | int | float => exact .set (.pure trivial)
  | name text =>
      dsimp only
      split
      · exact .refuse_optional trivial
      · exact .set (.pure trivial)
  | special sign =>
      cases sign with
      | minus =>
          dsimp only
          split
          · exact .refuse_optional trivial
          · exact .set (.pure trivial)
      | _ => exact .refuse_optional trivial
  | keyword | comment | endOfText => exact .refuse_optional trivial

theorem Junk.scan_custody (ignored : Option Keyword) :
    C.Keeps (scan env ignored : Reading n Unit Unit) () held fun _ _ _ => True := by
  refine .scan (fun _ => True) (by rintro _ _ ⟨⟩) ?_ trivial
  intro m hm _ token l _
  unfold feed
  split
  · exact .warn (.pure trivial)
  · exact .pure ⟨rfl, trivial⟩

/-! ### Expressions in order -/

namespace Expression

/-- The expression is in balance, and its code is in order. -/
structure InOrder (C : Custody env) (e : Expression) : Prop extends e.Balanced where
  code : C.Codes e.code

variable {e e' : Expression}

/-- An expression of which nothing has been read. -/
theorem in_order_of_fresh (hvalues : e.values = {}) (hoperators : e.operators = [])
    (hnext : e.nextOperand = true) : e.InOrder C where
  toBalanced := balanced_of_fresh hvalues hoperators hnext
  code := by
    rw [Expression.code, hvalues]
    exact .nil

namespace InOrder

/-- What is not about values, operators and objects does not matter. -/
theorem of_eq (he : e.InOrder C) (hvalues : e'.values = e.values)
    (hoperators : e'.operators = e.operators) (hnext : e'.nextOperand = e.nextOperand)
    (hobject : e'.object = e.object ∨ e'.object = "") : e'.InOrder C where
  toBalanced := he.toBalanced.of_eq (by rw [hvalues]) hoperators hnext hobject
  code := by
    rw [Expression.code, hvalues]
    exact he.code

theorem emit {code : Code} (he : e.InOrder C) (hcode : C.Codes code) : (e.emit code).InOrder C where
  toBalanced := he.toBalanced.of_eq rfl rfl rfl (Or.inl rfl)
  code := he.code.append hcode

/-- An operand where one has to follow, whose code has been emitted. -/
theorem push {type : ValueType} (he : e.InOrder C) (hnext : e.nextOperand = true)
    (hvalues : e'.values = ⟨type :: e.values.operands, e.values.code⟩)
    (hoperators : e'.operators = e.operators) (hnext' : e'.nextOperand = false)
    (hobject : e'.object = "") : e'.InOrder C where
  toBalanced := he.toBalanced.push hnext (by rw [hvalues]) hoperators hnext' hobject
  code := by
    rw [Expression.code, hvalues]
    exact he.code

/-- An operator that takes one operand, or a parenthesis, in front of an operand. -/
theorem push_operator {operator : Operator} (he : e.InOrder C)
    (hoperator : operator.isBinary = false) : (e.pushOperator operator).InOrder C where
  toBalanced := he.toBalanced.push_operator hoperator
  code := he.code

theorem codes_emit_operators {test : Option Operator → Bool} (he : e.InOrder C)
    (h : e.emitOperators test = .ok e') : C.Codes e'.code := by
  obtain ⟨⟨operators, values⟩, hvalues, h⟩ := except_bind_eq_ok.1 h
  cases h
  exact fun htracked => Operator.emit_while_accesses_only (he.code htracked) hvalues

/-- A closing parenthesis behind an operand finds the one that is open. -/
theorem exists_close_eq (he : e.InOrder C) (hnext : e.nextOperand = false)
    (hopen : e.isOpen = true) : ∃ e', e.close = .ok e' ∧ e'.InOrder C := by
  obtain ⟨e', hclose, he'⟩ := he.toBalanced.exists_close_eq hnext hopen
  refine ⟨e', hclose, he', ?_⟩
  obtain ⟨emitted, hemitted, hclose⟩ := except_bind_eq_ok.1 hclose
  cases hclose
  have hcode := he.codes_emit_operators hemitted
  exact hcode

/-- An operator between two operands. -/
theorem exists_push_binary_eq {operator : Operator} (he : e.InOrder C)
    (hnext : e.nextOperand = false) (hoperator : operator.isBinary = true) :
    ∃ e', e.pushBinary operator = .ok e' ∧ e'.InOrder C := by
  obtain ⟨e', hpush, he'⟩ := he.toBalanced.exists_push_binary_eq hnext hoperator
  refine ⟨e', hpush, he', ?_⟩
  obtain ⟨emitted, hemitted, hpush⟩ := except_bind_eq_ok.1 hpush
  cases hpush
  have hcode := he.codes_emit_operators hemitted
  exact hcode

end InOrder

/-- To end an expression meets no defect. -/
theorem finish_custody (he : e.InOrder C) :
    C.Keeps (finish : Reading n Expression (ValueType × Code)) e held
      fun found _ _ => C.Codes found.2 := by
  refine .get ?_
  split
  · exact .report (.pure .nil)
  split
  · exact .report (.pure .nil)
  next hnext =>
      split
      · exact .report (.pure .nil)
      next hopen =>
          replace hnext : e.nextOperand = false := by
            simp only [Bool.or_eq_true, not_or, Bool.not_eq_true] at hnext
            exact hnext.1
          obtain ⟨e', type, rest, hemit, hoperands⟩ := he.toBalanced.exists_finish_eq hnext hopen
          refine .of_ok hemit (.set ?_)
          rw [hoperands]
          exact .pure (he.codes_emit_operators hemit)

end Expression

/-! ### Argument lists -/

namespace ArgumentList

variable {σ : Type} {p : σ} {expression : Reading n Expression Unit}

/-- What was found has code that is in order. -/
def Found.Codes (C : Custody env) : Found → Prop
  | .value code => C.Codes code
  | .absent | .dropped => True

/-- The reader for which arguments are read is left alone. -/
abbrev Unmoved (p q : σ) (_ : Bool) : Prop :=
  q = p

/-- The action looks for an argument. -/
abbrev Finds (C : Custody env) (x : Reading n σ Found) (p : σ) (held : Bool) : Prop :=
  C.Keeps x p held (fun found q _ => found.Codes C ∧ q = p) (Unmoved p)

theorem read_text_custody (optional lowerCase : Bool) :
    Finds C (readText env optional lowerCase : Reading n σ Found) p held := by
  refine .modify_modes (.nested (TextArgument.scan_custody .nil) (fun _ => rfl) ?_)
  rintro _ argument _ hcode
  refine .pure ⟨?_, rfl⟩
  split
  · trivial
  · exact hcode

/-- Reports an extra argument, if there is one. -/
theorem extra_custody (empty : Bool) :
    Finds C (if empty = true then pure .absent
      else do
        Reading.warn .extraArgument l
        pure .dropped : Reading n σ Found) p held := by
  split
  · exact .pure ⟨trivial, rfl⟩
  · exact .warn (.pure ⟨trivial, rfl⟩)

variable (hexpression : ∀ {e : Expression} {held : Bool}, e.InOrder C →
  C.Keeps expression e held fun _ e _ => e.InOrder C)

include hexpression

theorem read_value_custody (optional : Bool) (type : ValueType) :
    Finds C (readValue expression optional type : Reading n σ Found) p held := by
  have hfresh := Expression.in_order_of_fresh (C := C)
    (e := { argument := true, progress := { optional } }) rfl rfl rfl
  refine .nested (hexpression hfresh) (fun _ => rfl) fun _ e _ he => ?_
  dsimp only
  split
  · exact .pure ⟨trivial, rfl⟩
  · refine .nested (Expression.finish_custody he) (fun _ => rfl) fun found _ _ hfound => ?_
    exact .pure ⟨hfound.append (.of_plain (Assembly.plain_convert _ _)), rfl⟩

/-- A letter with a meaning is read without a defect. -/
theorem read_letter_custody (manner : Manner) (optional : Bool) {letter : Char}
    (hletter : letter ∈ Signature.letters ∨ ∀ defect, C.defects defect) (hstroke : letter ≠ '/') :
    Finds C (readLetter env expression manner optional letter : Reading n σ Found) p held := by
  unfold readLetter
  split
  · exact read_text_custody _ _
  · exact read_text_custody _ _
  · exact .modify_modes (.nested (TextArgument.scan_custody .nil) (fun _ => rfl)
      fun _ _ _ _ => extra_custody _)
  · exact .nested (hexpression (Expression.in_order_of_fresh rfl rfl rfl)) (fun _ => rfl)
      fun _ _ _ _ => extra_custody _
  · exact .nested DroppedArgument.scan_custody (fun _ => rfl) fun _ _ _ _ => extra_custody _
  · exact .nested (Junk.scan_custody _) (fun _ => rfl) fun _ _ _ _ => .pure ⟨trivial, rfl⟩
  next hS hc hx hX hz hj =>
      split
      · unfold readExpression
        split
        · exact .modify_modes (read_value_custody hexpression _ _)
        · exact read_value_custody hexpression _ _
      next htype =>
          obtain hletter | hall := hletter
          · refine absurd htype ?_
            simp only [Signature.letters, List.mem_cons, List.not_mem_nil, or_false] at hletter
            obtain rfl | rfl | rfl | rfl | rfl | rfl | rfl | rfl | rfl | rfl := hletter
            all_goals contradiction
          · exact .abort (hall _) rfl

/-- Letters with a meaning are read without a defect, and at most those behind the stroke count as
optional arguments. -/
theorem read_letters_custody (manner : Manner) (optional : Bool) {letters : List Char}
    (hletters : (∀ letter ∈ letters, letter ∈ Signature.letters) ∨ ∀ defect, C.defects defect)
    (count : Nat) {parts : List Code} (hparts : ∀ part ∈ parts, C.Codes part) :
    C.Keeps (readLetters env expression manner optional count parts letters : Reading n σ _) p held
      (fun found q _ => C.Codes found.2 ∧ found.1 ≤
        count + (if optional then letters else Signature.behindStroke letters).length ∧ q = p)
      (Unmoved p) := by
  induction letters generalizing optional count parts held with
  | nil => exact .pure ⟨.flatten hparts, Nat.le_add_right _ _, rfl⟩
  | cons letter rest ih =>
      have hrest := hletters.imp_left fun h later hlater =>
        h later (List.mem_cons_of_mem letter hlater)
      unfold readLetters
      split
      next hstroke =>
          subst hstroke
          refine (ih true hrest count hparts).imp (fun found q _ hq => ⟨hq.1, ?_, hq.2.2⟩)
            fun _ _ h => h
          have hle := hq.2.1
          cases optional with
          | true => exact Nat.le_succ_of_le hle
          | false => exact hle
      next hstroke =>
          have hletter := hletters.imp_left fun h => h letter List.mem_cons_self
          refine (read_letter_custody hexpression manner optional hletter hstroke).bind ?_
          rintro found q held ⟨hfound, rfl⟩
          have hmore (added : Nat) {parts : List Code} (hadded : added ≤ if optional then 1 else 0)
              (hparts : ∀ part ∈ parts, C.Codes part) :
              C.Keeps (readLetters env expression manner optional (count + added) parts rest :
                Reading n σ _) q held (fun found q' _ => C.Codes found.2 ∧ found.1 ≤ count +
                  (if optional then letter :: rest
                    else Signature.behindStroke (letter :: rest)).length ∧ q' = q)
                (Unmoved q) := by
            refine (ih optional hrest (count + added) hparts).imp
              (fun found q' _ hq => ⟨hq.1, ?_, hq.2.2⟩) fun _ _ h => h
            have hle := hq.2.1
            rw [Signature.behind_stroke_cons_of_ne hstroke]
            cases optional with
            | true =>
                simp only [if_true, List.length_cons] at hle hadded ⊢
                omega
            | false =>
                simp only [Bool.false_eq_true, if_false] at hle hadded ⊢
                omega
          cases found with
          | absent => exact .pure ⟨.flatten hparts, Nat.le_add_right _ _, rfl⟩
          | dropped => exact hmore 0 (Nat.zero_le _) hparts
          | value code =>
              have hall : ∀ part ∈ code :: parts, C.Codes part :=
                List.forall_mem_cons.2 ⟨hfound, hparts⟩
              dsimp only
              cases optional with
              | true => exact hmore 1 (Nat.le_refl _) hall
              | false => exact hmore 0 (Nat.le_refl _) hall

/-- Arguments are read without a defect, and there are no more optional ones than letters behind
the stroke. -/
theorem read_custody (manner : Manner) {signature : String}
    (hletters : (∀ letter ∈ signature.toList, letter ∈ Signature.letters) ∨
      ∀ defect, C.defects defect) :
    C.Keeps (read env expression signature manner : Reading n σ (Nat × Code)) p held
      (fun found q _ => C.Codes found.2 ∧
        found.1 ≤ (Signature.behindStroke signature.toList).length ∧ q = p) (Unmoved p) := by
  refine (read_letters_custody hexpression manner false hletters 0
    (List.forall_mem_nil _)).imp (fun found q _ hq => ?_) fun _ _ h => h
  rwa [Nat.zero_add, if_neg Bool.false_ne_true] at hq

end ArgumentList

/-! ### Expressions -/

namespace Expression

variable {e : Expression} {err : Expression → Bool → Prop}

/-- Emits code that needs literals. -/
theorem emit_with_custody {make : Literals → Code × Literals}
    {within : ∀ pool : Literals, pool.Within (make pool).2} {β : Type}
    {k : PUnit → Reading n Expression β} {post : β → Expression → Bool → Prop}
    (he : e.InOrder C) (hmake : ∀ pool, C.Codes (make pool).1)
    (h : ∀ code, (e.emit code).InOrder C → C.Keeps (k ⟨⟩) (e.emit code) held post err) :
    C.Keeps (emitWith make within >>= k) e held post err := by
  rw [emitWith, bind_assoc]
  exact .with_literals fun pool => .modify (h _ (he.emit (hmake pool)))

section Considering

variable (herr : ∀ e, err e true)

include herr

theorem refuse_custody (he : e.InOrder C) :
    C.Keeps (refuse token l : Reading n Expression Verdict) e true (Considers (InOrder C)) err := by
  refine .get ?_
  unfold Progress.refuse
  split
  · exact .pure ⟨he, rfl, Or.inr ⟨token, rfl⟩⟩
  · exact .fail (herr e)

theorem feed_number_custody {type : ValueType} {push : Literals → Code × Literals}
    {within : ∀ pool : Literals, pool.Within (push pool).2}
    (hpush : ∀ pool, C.Codes (push pool).1) (he : e.InOrder C) :
    C.Keeps (feedNumber token type push l within : Reading n Expression Verdict) e true
      (Considers (InOrder C)) err := by
  refine .get ?_
  split
  · exact refuse_custody herr he
  next hobject =>
      replace hobject : e.object = "" := by simpa using hobject
      refine .set ?_
      split
      · exact .pure ⟨he.of_eq rfl rfl rfl (Or.inl rfl), rfl, Or.inr ⟨token, rfl⟩⟩
      next hnext =>
          replace hnext : e.nextOperand = true := by simpa using hnext
          refine .modify (emit_with_custody (he.of_eq rfl rfl rfl (Or.inl rfl)) hpush
            fun code he => .modify (.modify (.pure ⟨?_, rfl, Or.inl rfl⟩)))
          exact he.push hnext rfl rfl rfl hobject

omit herr in
theorem feed_operand_custody (name : String) (he : e.InOrder C) (hobject : e.object = "") :
    C.Keeps (feedOperand env name l : Reading n Expression Verdict) e true
      (Considers (InOrder C)) err := by
  refine .modify (.get ?_)
  split
  · exact .pure ⟨he.of_eq rfl rfl rfl (Or.inl rfl), rfl, Or.inr ⟨_, rfl⟩⟩
  next hnext =>
      replace hnext : e.nextOperand = true := by simpa using hnext
      refine .modify (.look fun s hholds => ?_)
      have he' : InOrder C { e with progress := e.progress.start, first := false } :=
        he.of_eq rfl rfl rfl (Or.inl rfl)
      dsimp only
      split
      next type htype =>
          have hfetch := he'.emit fun _ => .of_fetch (C.allowed_of_holds hholds htype)
          refine .modify (.modify (.pure ⟨?_, rfl, Or.inl rfl⟩))
          exact hfetch.push hnext rfl rfl rfl hobject
      split
      · refine emit_with_custody he' (fun pool => .of_plain (Assembly.plain_fetch_global _ _ pool))
          fun code he => .modify (.pure ⟨?_, rfl, Or.inl rfl⟩)
        exact he.push hnext rfl rfl rfl hobject
      split
      · exact .modify (.pure ⟨⟨⟨he.balance, fun _ => hnext⟩, he.code⟩, rfl, Or.inl rfl⟩)
      · refine emit_with_custody he' (fun pool => .of_plain (Assembly.plain_push_float _ pool))
          fun code he => .modify (.modify (.warn (.pure ⟨?_, rfl, Or.inl rfl⟩)))
        exact he.push hnext rfl rfl rfl hobject

theorem feed_member_custody (name : String) (he : e.InOrder C) (hobject : e.object ≠ "") :
    C.Keeps (feedMember env name l : Reading n Expression Verdict) e true
      (Considers (InOrder C)) err := by
  have he' : InOrder C { e with point := false } := he.of_eq rfl rfl rfl (Or.inl rfl)
  refine .modify (.get ?_)
  dsimp only
  split
  · exact refuse_custody herr he'
  · refine emit_with_custody he' (fun pool => .of_plain (Assembly.plain_fetch_member _ _ _ _ pool))
      fun code he'' => .modify (.pure ⟨?_, rfl, Or.inl rfl⟩)
    exact he''.push (he.object hobject) rfl rfl rfl rfl

/-- A name stays in hand: nothing is read to see what it is. -/
theorem feed_name_custody (name : String) (he : e.InOrder C) :
    C.Keeps (feedName env name l : Reading n Expression Verdict) e true
      (Considers (InOrder C)) err := by
  refine .get ?_
  split
  next hobject => exact feed_operand_custody name he (by simpa using hobject)
  next hobject =>
      split
      · exact .set (.warn (feed_operand_custody name (he.of_eq rfl rfl rfl (Or.inr rfl)) rfl))
      split
      · exact feed_member_custody herr name he (by simpa using hobject)
      · exact refuse_custody herr he

variable {sign : Special}

theorem feed_joint_custody (he : e.InOrder C) :
    C.Keeps (feedJoint sign l : Reading n Expression Verdict) e true
      (Considers (InOrder C)) err := by
  refine .get ?_
  split
  · exact .set (.pure ⟨(he.push_operator rfl).of_eq rfl rfl rfl (Or.inl rfl), rfl, Or.inl rfl⟩)
  split
  · exact .set (.pure ⟨he.of_eq rfl rfl rfl (Or.inl rfl), rfl, Or.inl rfl⟩)
  split
  · exact .set (.pure ⟨he.of_eq rfl rfl rfl (Or.inl rfl), rfl, Or.inl rfl⟩)
  · exact refuse_custody herr he

theorem feed_before_operand_custody (he : e.InOrder C) :
    C.Keeps (feedBeforeOperand sign l : Reading n Expression Verdict) e true
      (Considers (InOrder C)) err := by
  refine .get ?_
  split
  · exact .set (.pure ⟨(he.push_operator rfl).of_eq rfl rfl rfl (Or.inl rfl), rfl, Or.inl rfl⟩)
  · exact .set (.pure ⟨he.of_eq rfl rfl rfl (Or.inl rfl), rfl, Or.inl rfl⟩)
  · exact .set (.pure ⟨(he.push_operator rfl).of_eq rfl rfl rfl (Or.inl rfl), rfl, Or.inl rfl⟩)
  · exact refuse_custody herr he

theorem feed_behind_operand_custody (he : e.InOrder C) (hnext : e.nextOperand = false) :
    C.Keeps (feedBehindOperand sign l : Reading n Expression Verdict) e true
      (Considers (InOrder C)) err := by
  have hplaced : InOrder C { e with location := l } := he.of_eq rfl rfl rfl (Or.inl rfl)
  refine .get ?_
  split
  · exact .pure ⟨he, rfl, Or.inr ⟨_, rfl⟩⟩
  · split
    next hopen =>
        obtain ⟨e', hclose, he'⟩ := he.exists_close_eq hnext hopen
        exact .of_ok hclose (.set (.pure ⟨he', rfl, Or.inl rfl⟩))
    · exact .set (.pure ⟨hplaced, rfl, Or.inr ⟨_, rfl⟩⟩)
  · refine .set ?_
    dsimp only
    split
    · exact refuse_custody herr hplaced
    next operator hoperator =>
        split
        · exact .pure ⟨hplaced, rfl, Or.inr ⟨_, rfl⟩⟩
        · obtain ⟨e', hpush, he'⟩ :=
            hplaced.exists_push_binary_eq hnext (is_binary_of_of_special? hoperator)
          exact .of_ok hpush (.set (.pure ⟨he', rfl, Or.inl rfl⟩))

/-- A special sign stays in hand: nothing is read to see what it is. -/
theorem feed_special_custody (he : e.InOrder C) :
    C.Keeps (feedSpecial sign l : Reading n Expression Verdict) e true
      (Considers (InOrder C)) err := by
  refine .get ?_
  split
  · exact feed_joint_custody herr he
  split
  · refine .set (.pure ⟨he.of_eq rfl rfl rfl (Or.inl rfl), rfl, ?_⟩)
    split
    · exact Or.inl rfl
    · exact Or.inr ⟨_, rfl⟩
  have hfirst : InOrder C { e with first := false } := he.of_eq rfl rfl rfl (Or.inl rfl)
  refine .set ?_
  split
  · exact .modify (.pure ⟨hfirst.of_eq rfl rfl rfl (Or.inl rfl), rfl, Or.inr ⟨_, rfl⟩⟩)
  split
  · exact feed_before_operand_custody herr hfirst
  next hnext => exact feed_behind_operand_custody herr hfirst (by simpa using hnext)

end Considering

/-! ### Functions -/

section Calls

variable {nested : Reading n Expression Unit}
  (hnested : ∀ {e : Expression} {held : Bool}, e.InOrder C →
    C.Keeps nested e held fun _ e _ => e.InOrder C)

/-- The keyword has been taken if it is a function, and otherwise it is still in hand. -/
def Calls (C : Custody env) (found : Bool) (e : Expression) (held : Bool) : Prop :=
  e.InOrder C ∧ (found = false → held = true)

theorem called_custody (type : ValueType) (he : e.InOrder C) (hnext : e.nextOperand = true)
    (hobject : e.object = "") :
    C.Keeps (called type : Reading n Expression Bool) e held (Calls C) :=
  .modify (.pure ⟨he.push hnext rfl rfl rfl hobject, by rintro ⟨⟩⟩)

/-- Takes a keyword that is a function, and otherwise refuses it. -/
theorem call_or_custody {x : Reading n Expression Bool} (hx : C.Keeps x e true (Calls C)) :
    C.Keeps (do if ← x then pure .more else refuse token l) e true
      (C.Answers (InOrder C) (InOrder C)) := by
  refine hx.bind ?_
  rintro found e held ⟨he, hheld⟩
  cases found with
  | true => exact .pure he
  | false =>
      obtain rfl := hheld rfl
      exact .answers (refuse_custody (fun _ => trivial) he)

include hnested

theorem read_arguments_custody {signature : String}
    (hletters : (∀ letter ∈ signature.toList, letter ∈ Signature.letters) ∨
      ∀ defect, C.defects defect) (he : e.InOrder C) :
    C.Keeps (readArguments env nested signature) e held fun count q _ =>
      ∃ code, q = e.emit code ∧ q.InOrder C ∧
        count ≤ (Signature.behindStroke signature.toList).length := by
  refine ((ArgumentList.read_custody hnested {} hletters).imp (fun _ _ _ h => h)
    fun _ _ _ => trivial).bind ?_
  rintro found _ _ ⟨hcode, hle, rfl⟩
  exact .modify (.pure ⟨_, rfl, he.emit hcode, hle⟩)

/-- A function of the language. Those that take no object find none. -/
theorem call_builtin_custody (word : Builtin) (he : e.InOrder C) (hnext : e.nextOperand = true)
    (hobject : e.object = "" ∨ word = .getDistance ∨ word = .getDisabled) :
    C.Keeps (callBuiltin env nested word) e true (Calls C) := by
  cases word with
  | getSquareRoot | random | scriptRunning =>
      replace hobject : e.object = "" := by simpa using hobject
      refine (read_arguments_custody hnested (Or.inl (by simp [Signature.letters])) he).bind ?_
      rintro _ _ _ ⟨code, rfl, he, -⟩
      refine .modify (called_custody _ (he.emit (.of_plain ?_)) hnext hobject)
      simp [Opcode.isLocalAccess]
  | menuMode | getSecondsPassed =>
      replace hobject : e.object = "" := by simpa using hobject
      refine .modify (called_custody _ (he.emit (.of_plain ?_)) hnext hobject)
      simp [Opcode.isLocalAccess]
  | getDistance =>
      refine (read_arguments_custody hnested (Or.inl (by simp [Signature.letters])) he).bind ?_
      rintro _ _ _ ⟨code, rfl, he, -⟩
      refine .get (emit_with_custody he (fun pool => .of_plain
        (Assembly.plain_with_reference rfl rfl)) fun code he => .modify ?_)
      exact called_custody _ (he.of_eq rfl rfl rfl (Or.inr rfl)) hnext rfl
  | getDisabled =>
      refine .get (emit_with_custody he (fun pool => .of_plain
        (Assembly.plain_with_reference rfl rfl)) fun code he => .modify ?_)
      exact called_custody _ (he.of_eq rfl rfl rfl (Or.inr rfl)) hnext rfl
  | _ => exact .pure ⟨he, fun _ => rfl⟩

/-- A function of the host. An object that it does not take is dropped before the call. -/
theorem call_extension_custody (code : Int) (he : e.InOrder C) (hnext : e.nextOperand = true) :
    C.Keeps (callExtension env nested code l) e true (Calls C) := by
  cases hfunction : env.extensions.function? code with
  | none =>
      rw [call_extension_of_none hfunction]
      exact .pure ⟨he, fun _ => rfl⟩
  | some function =>
      have hcall {e : Expression} (he : e.InOrder C) (hnext : e.nextOperand = true)
          (hobject : e.object ≠ "" → function.hasExplicit = true) :
          C.Keeps (callFunction env nested function l) e true (Calls C) := by
        have hletters : (∀ letter ∈ function.arguments.toList, letter ∈ Signature.letters) ∨
            ∀ defect, C.defects defect :=
          C.regular.imp_left fun h => (h code function (Or.inl hfunction)).letters
        refine .modify (.modify ((read_arguments_custody hnested hletters ?_).bind ?_))
        · exact he.of_eq rfl rfl rfl (Or.inl rfl)
        rintro optionals _ _ ⟨arguments, rfl, he, hle⟩
        refine .get (.with_literals fun pool => .modify (.of_defect
          (defects_of_call (Or.inl hfunction) hle hobject pool) trivial fun _ _ => .modify ?_))
        have hemitted := he.emit (.of_call (Or.inl hfunction) e.object optionals pool)
        exact called_custody _ (hemitted.of_eq rfl rfl rfl (Or.inr rfl)) hnext rfl
      rw [call_extension_of_some hfunction]
      refine .get ?_
      dsimp only
      split
      · exact .warn (.modify (hcall (he.of_eq rfl rfl rfl (Or.inr rfl)) hnext
          fun h => absurd rfl h))
      next hstray =>
          refine hcall he hnext fun hobject => ?_
          simpa [hobject] using hstray

theorem call_custody (word : Keyword) (he : e.InOrder C) (hnext : e.nextOperand = true)
    (hobject : e.object = "" ∨ word = .builtin .getDistance ∨ word = .builtin .getDisabled) :
    C.Keeps (call env nested l word) e true (Calls C) := by
  cases word with
  | builtin word => exact call_builtin_custody hnested word he hnext (by simpa using hobject)
  | extension code => exact call_extension_custody hnested code he hnext

theorem feed_method_custody (word : Keyword) (he : e.InOrder C) :
    C.Keeps (feedMethod env nested word l) e true (C.Answers (InOrder C) (InOrder C)) := by
  have hrefuse : C.Keeps (refuse (.keyword word) l : Reading n Expression Verdict) e true
      (C.Answers (InOrder C) (InOrder C)) :=
    .answers (refuse_custody (fun _ => trivial) he)
  refine .get ?_
  split
  next h =>
      have hnext : e.nextOperand = true := (Bool.and_eq_true_iff.1 h).2
      have hplaced : InOrder C { e with progress := e.progress.start, location := l } :=
        he.of_eq rfl rfl rfl (Or.inl rfl)
      split
      · exact .modify (.modify ((call_custody hnested _ hplaced hnext
          (Or.inr (Or.inr rfl))).bind fun _ _ _ hcalls => .pure hcalls.1))
      · exact .modify (.modify ((call_custody hnested _ hplaced hnext
          (Or.inr (Or.inl rfl))).bind fun _ _ _ hcalls => .pure hcalls.1))
      · exact hrefuse
      · exact call_or_custody (call_extension_custody hnested _ he hnext)
  · exact hrefuse

theorem feed_function_custody (word : Keyword) (he : e.InOrder C) :
    C.Keeps (feedFunction env nested word l) e true (C.Answers (InOrder C) (InOrder C)) := by
  have hfirst : InOrder C { e with first := false } := he.of_eq rfl rfl rfl (Or.inl rfl)
  refine .modify (.get ?_)
  dsimp only
  split
  · exact feed_method_custody hnested word hfirst
  next hobject =>
      split
      · exact .pure ⟨rfl, hfirst⟩
      next hnext =>
          have hplaced : InOrder C
              { e with progress := e.progress.start, first := false, location := l } :=
            he.of_eq rfl rfl rfl (Or.inl rfl)
          exact .modify (.modify (call_or_custody (call_custody hnested word hplaced
            (by simpa using hnext) (Or.inl (by simpa using hobject)))))

theorem feed_keyword_custody (word : Keyword) (he : e.InOrder C) :
    C.Keeps (feedKeyword env nested word l) e true (C.Answers (InOrder C) (InOrder C)) := by
  have hname (name : String) : C.Keeps (feedName env name l : Reading n Expression Verdict) e true
      (C.Answers (InOrder C) (InOrder C)) :=
    .answers (feed_name_custody (fun _ => trivial) name he)
  unfold feedKeyword
  split <;> split
  · exact hname _
  · exact feed_function_custody hnested _ he
  · exact hname _
  · exact feed_function_custody hnested _ he

/-- Takes a token, if the expressions among the arguments of functions are read in custody. -/
theorem feed_custody (he : e.InOrder C) :
    C.Keeps (feed env nested token l) e true (C.Answers (InOrder C) (InOrder C)) := by
  cases token with
  | int value =>
      exact .answers (feed_number_custody (fun _ => trivial)
        (fun pool => .of_plain (Assembly.plain_push_int value pool)) he)
  | float value =>
      exact .answers (feed_number_custody (fun _ => trivial)
        (fun pool => .of_plain (Assembly.plain_push_float value pool)) he)
  | name name => exact .answers (feed_name_custody (fun _ => trivial) name he)
  | keyword word => exact feed_keyword_custody hnested word he
  | special sign => exact .answers (feed_special_custody (fun _ => trivial) he)
  | comment | endOfText => exact .answers (refuse_custody (fun _ => trivial) he)

end Calls

/-- An expression is read without a defect. -/
theorem scan_custody (env : Environment) {C : Custody env} (n : Nat) (he : e.InOrder C) :
    C.Keeps (scan env n) e held fun _ e _ => e.InOrder C := by
  induction n using Nat.strongRecOn generalizing e held with
  | ind n ih =>
      rw [scan]
      exact .scan (InOrder C) (by rintro _ _ ⟨⟩)
        (fun m hm e token l he => feed_custody (fun he => ih m hm he) he) he

/-- An expression may start with a token that is in hand. -/
theorem starting_custody {first : Option (Token × Location)} (he : e.InOrder C) :
    C.Keeps (Reading.starting (feed env (scan env n)) (scan env n) first) e true
      fun _ e _ => e.InOrder C := by
  cases first with
  | none => exact scan_custody env n he
  | some first =>
      exact .starting (feed_custody (fun he => scan_custody env n he) he)
        fun e he => scan_custody env n he

/-! ### Offers by hand -/

/-- The token is taken, or it is an error. -/
def Responds (x : Reading n Expression Verdict) (e : Expression) : Prop :=
  ∀ s h, (x.run e s h).outcome = .ok .more ∨ (x.run e s h).outcome = .error .source

theorem refuse_responds (token : Token) (he : e.progress.optional = false) :
    Responds (refuse token l : Reading n Expression Verdict) e := by
  intro s h
  simp only [refuse, Reading.run_get_bind, Progress.refuse, he, Bool.false_and,
    Bool.false_eq_true, if_false]
  exact Or.inr rfl

/-- A name that an expression starts with is taken. -/
theorem feed_name_responds (env : Environment) (l : Location) (name : String) (s : Session)
    (h : s.unread ≤ n) :
    ((feedName env name l : Reading n Expression Verdict).run {} s h).outcome = .ok .more ∧
      ((feedName env name l : Reading n Expression Verdict).run {} s h).reader.progress.optional =
        false := by
  show ((feedOperand env name l : Reading n Expression Verdict).run {} s h).outcome = .ok .more ∧
    ((feedOperand env name l : Reading n Expression Verdict).run {} s h).reader.progress.optional =
      false
  unfold feedOperand
  simp only [Reading.run_modify_bind, Reading.run_get_bind, start, Reading.run_look_bind,
    Bool.not_true, Bool.false_eq_true, if_false]
  split
  · exact ⟨rfl, rfl⟩
  split
  · exact ⟨rfl, rfl⟩
  split
  · exact ⟨rfl, rfl⟩
  · exact ⟨rfl, rfl⟩

theorem feed_joint_responds (joint : Special) (he : e.progress.optional = false) :
    Responds (feedJoint joint l : Reading n Expression Verdict) e := by
  intro s h
  unfold feedJoint
  rw [Reading.run_get_bind]
  split
  · exact Or.inl rfl
  split
  · exact Or.inl rfl
  split
  · exact Or.inl rfl
  · exact refuse_responds _ he s h

/-- A sign that joins an object to what follows is taken, or it is an error. -/
theorem feed_special_responds {joint : Special} (hjoint : joint = .member ∨ joint = .reference)
    (he : e.progress.optional = false) :
    Responds (feedSpecial joint l : Reading n Expression Verdict) e := by
  intro s h
  unfold feedSpecial
  rw [Reading.run_get_bind]
  split
  · exact feed_joint_responds joint he s h
  have hplain : (joint == .comma) = false ∧ (joint == .newline) = false := by
    obtain rfl | rfl := hjoint <;> exact ⟨rfl, rfl⟩
  simp only [hplain.1, hplain.2, Bool.false_eq_true, if_false]
  rw [Reading.run_set_bind]
  -- Away from an object such a sign belongs neither in front of an operand nor behind one.
  have hrefuse (e : Expression) (he : e.progress.optional = false) :
      Responds (refuse (.special joint) l : Reading n Expression Verdict) e :=
    refuse_responds (.special joint) he
  split
  · obtain rfl | rfl := hjoint
    · exact hrefuse { e with first := false } he s h
    · exact hrefuse { e with first := false } he s h
  · obtain rfl | rfl := hjoint
    · exact hrefuse { e with first := false, location := l } he s h
    · exact hrefuse { e with first := false, location := l } he s h

end Expression

end QuestScript
