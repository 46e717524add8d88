import QuestScript.Expression.Reader
import QuestScript.Proofs.Coupling.Basic

/-!
# Arguments and expressions side by side

The readers of arguments and expressions keep the place of a token, which two runs may see at
different lines. Apart from that their states are the same in both runs. No reader of this module
looks at the log, at the line or at what stands behind its token, so that two runs keep in step
under every coupling (`Expression.scan_sim`, `ArgumentList.read_sim`).
-/

namespace QuestScript

open Coupling

variable {n m : Nat} {env : Environment} {place : Location → Location → Prop}
  {C : Coupling env place} {l l' : Location} {token token' : Token} {name name' : String}

/-! ### Text arguments -/

namespace TextArgument

/-- Text arguments that differ in the place only. -/
def Alike (place : Location → Location → Prop) (argument argument' : TextArgument) : Prop :=
  ∃ location, place argument.location location ∧ argument' = { argument with location }

/-- Text arguments that differ in the place and, if `stale` holds, in whether a comma has been
read. -/
def AlikeUpTo (place : Location → Location → Prop) (stale : Prop)
    (argument argument' : TextArgument) : Prop :=
  ∃ location comma, place argument.location location ∧ (stale ∨ comma = argument.comma) ∧
    argument' = { argument with location, comma }

theorem alike_eq : Alike place = AlikeUpTo place False := by
  funext argument argument'
  refine propext ⟨?_, ?_⟩
  · rintro ⟨location, hlocation, rfl⟩
    exact ⟨location, argument.comma, hlocation, Or.inr rfl, rfl⟩
  · rintro ⟨location, comma, hlocation, hcomma, rfl⟩
    obtain rfl := hcomma.resolve_left id
    exact ⟨location, hlocation, rfl⟩

variable {stale : Prop}

theorem accept_sim (hname : C.texts.rel name name') (hspot : C.spot l l') :
    C.Sim (AlikeUpTo C.spot stale) (C.Agrees l l') (accept name l : Reading n TextArgument Verdict)
      (accept name' l' : Reading m TextArgument Verdict) := by
  have hmodify : C.Sim (AlikeUpTo C.spot stale) Eq
      (modify fun argument => { argument with progress := argument.progress.start, location := l } :
        Reading n TextArgument PUnit)
      (modify fun argument =>
          { argument with progress := argument.progress.start, location := l' } :
        Reading m TextArgument PUnit) := by
    refine .modify ?_
    rintro argument _ ⟨location, comma, -, hcomma, rfl⟩
    exact ⟨l', comma, hspot, hcomma, rfl⟩
  refine .seq hmodify fun _ => .bind .get ?_
  rintro argument _ ⟨location, comma, hlocation, hcomma, rfl⟩
  have htext : C.texts.rel (if argument.lowerCase then Text.toLower name else name)
      (if argument.lowerCase then Text.toLower name' else name') := by
    split
    · rw [C.texts.toLower_eq hname]
      exact C.texts.refl _
    · exact hname
  dsimp only
  split
  · exact .pure .done
  · refine .seq (.with_literals (.push_string htext) _ _) fun code => .seq (.set ?_) fun _ =>
      .pure .done
    exact ⟨location, comma, hlocation, hcomma, rfl⟩

/-- Whether a comma has been read matters to a comma only. -/
theorem feed_sim_up_to (htoken : token.Alike C.texts token') (hplace : C.At token l l')
    (hstale : stale → token ≠ .special .comma) :
    C.Sim (AlikeUpTo C.spot stale) (C.Agrees l l')
      (feed env token l : Reading n TextArgument Verdict)
      (feed env token' l' : Reading m TextArgument Verdict) := by
  have hspot := hplace.spot
  refine .bind .get ?_
  rintro argument _ ⟨location, comma, hlocation, hcomma, rfl⟩
  cases htoken with
  | name hname => exact accept_sim hname hspot
  | keyword word =>
      dsimp only
      split
      · exact accept_sim (C.texts.unquote (C.literal_alike hplace)) hspot
      · exact .progress_refuse _ (.keyword word) hplace
  | int value =>
      exact .seq (.warn _ hplace) fun _ => accept_sim (C.literal_alike hplace) hspot
  | special sign =>
      cases sign with
      | comma =>
          obtain rfl := hcomma.resolve_left fun h => hstale h rfl
          dsimp only
          split
          · exact .seq (.set ⟨location, true, hlocation, Or.inr rfl, rfl⟩) fun _ => .pure .more
          · exact .progress_refuse _ (.special .comma) hplace
      | _ => exact .progress_refuse _ (.special _) hplace
  | float value => exact .progress_refuse _ (.float value) hplace
  | comment text => exact .progress_refuse _ (.comment text) hplace
  | endOfText => exact .progress_refuse _ .endOfText hplace

theorem feed_sim (htoken : token.Alike C.texts token') (hplace : C.At token l l') :
    C.Sim (Alike C.spot) (C.Agrees l l') (feed env token l : Reading n TextArgument Verdict)
      (feed env token' l' : Reading m TextArgument Verdict) := by
  rw [alike_eq]
  exact feed_sim_up_to htoken hplace False.elim

theorem scan_sim {C : ScanCoupling env place} :
    C.Sim (Alike C.spot) Eq (scan env : Reading n TextArgument Unit)
      (scan env : Reading m TextArgument Unit) :=
  .scan (fun _ _ _ => rfl) fun _ _ _ _ _ _ _ _ htoken hplace => feed_sim htoken hplace

end TextArgument

/-! ### Dropped arguments -/

namespace DroppedArgument

/-- Dropped arguments that differ in the place only. -/
def Alike (place : Location → Location → Prop) (argument argument' : DroppedArgument) : Prop :=
  ∃ location, place argument.location location ∧ argument' = { argument with location }

theorem Alike.accept {argument argument' : DroppedArgument}
    (h : Alike C.spot argument argument') (hspot : C.spot l l') :
    Alike C.spot (argument.accept l) (argument'.accept l') := by
  obtain ⟨location, hlocation, rfl⟩ := h
  unfold DroppedArgument.accept
  cases argument.progress.empty with
  | true => exact ⟨l', hspot, rfl⟩
  | false => exact ⟨location, hlocation, rfl⟩

theorem feed_sim (htoken : token.Alike C.texts token') (hplace : C.At token l l') :
    C.Sim (Alike C.spot) (C.Agrees l l') (feed token l : Reading n DroppedArgument Verdict)
      (feed token' l' : Reading m DroppedArgument Verdict) := by
  refine .bind .get fun argument argument' h => ?_
  have haccept := h.accept hplace.spot
  obtain ⟨location, hlocation, rfl⟩ := h
  cases htoken with
  | int value => exact .seq (.set haccept) fun _ => .pure .done
  | float value => exact .seq (.set haccept) fun _ => .pure .done
  | name hname =>
      dsimp only
      split
      · exact .progress_refuse _ (.name hname) hplace
      · exact .seq (.set haccept) fun _ => .pure .done
  | special sign =>
      cases sign with
      | minus =>
          dsimp only
          split
          · exact .progress_refuse _ (.special .minus) hplace
          · refine .seq (.set ?_) fun _ => .pure .more
            obtain ⟨location', hlocation', heq⟩ := haccept
            exact ⟨location', hlocation', by rw [heq]⟩
      | _ => exact .progress_refuse _ (.special _) hplace
  | keyword word => exact .progress_refuse _ (.keyword word) hplace
  | comment text => exact .progress_refuse _ (.comment text) hplace
  | endOfText => exact .progress_refuse _ .endOfText hplace

theorem scan_sim {C : ScanCoupling env place} :
    C.Sim (Alike C.spot) Eq (scan env : Reading n DroppedArgument Unit)
      (scan env : Reading m DroppedArgument Unit) :=
  .scan (fun _ _ _ => rfl) fun _ _ _ _ _ _ _ _ htoken hplace => feed_sim htoken hplace

end DroppedArgument

/-! ### Junk -/

theorem Junk.scan_sim {C : ScanCoupling env place} (ignored : Option Keyword) :
    C.Sim Eq Eq (Junk.scan env ignored : Reading n Unit Unit)
      (Junk.scan env ignored : Reading m Unit Unit) := by
  refine .scan (fun _ _ _ => rfl) fun _ _ _ _ token token' _ _ htoken hplace => ?_
  have hjunk : isJunk ignored token' = isJunk ignored token := by
    cases htoken <;> rfl
  unfold feed
  rw [hjunk]
  split
  · exact .seq (.warn_at (.same _) hplace.spot) fun _ => .pure .done
  · exact .pure (.handBack htoken hplace)

/-! ### Expressions -/

namespace Expression

/-- Expressions that differ in the place only. -/
def Alike (place : Location → Location → Prop) (e e' : Expression) : Prop :=
  ∃ location, place e.location location ∧ e' = { e with location }

/-- Expressions that differ in the place and, if `stale` holds, in whether an arrow has been
read. -/
def AlikeUpTo (place : Location → Location → Prop) (stale : Prop) (e e' : Expression) : Prop :=
  ∃ location arrow, place e.location location ∧ (stale ∨ arrow = e.arrow) ∧
    e' = { e with location, arrow }

theorem alike_eq : Alike place = AlikeUpTo place False := by
  funext e e'
  refine propext ⟨?_, ?_⟩
  · rintro ⟨location, hlocation, rfl⟩
    exact ⟨location, e.arrow, hlocation, Or.inr rfl, rfl⟩
  · rintro ⟨location, arrow, hlocation, harrow, rfl⟩
    obtain rfl := harrow.resolve_left id
    exact ⟨location, hlocation, rfl⟩

variable {stale : Prop}

theorem emit_operators_aside (e : Expression) (location : Location) (arrow : Bool)
    (test : Option Operator → Bool) :
    ({ e with location, arrow } : Expression).emitOperators test =
      (e.emitOperators test).map ({ · with location, arrow }) := by
  unfold emitOperators
  cases Operator.emitWhile test e.operators e.values <;> rfl

theorem close_aside (e : Expression) (location : Location) (arrow : Bool) :
    ({ e with location, arrow } : Expression).close =
      e.close.map ({ · with location, arrow }) := by
  unfold close
  rw [emit_operators_aside]
  cases e.emitOperators fun top => top != some .opening <;> rfl

theorem push_binary_aside (e : Expression) (location : Location) (arrow : Bool)
    (operator : Operator) :
    ({ e with location, arrow } : Expression).pushBinary operator =
      (e.pushBinary operator).map ({ · with location, arrow }) := by
  unfold pushBinary
  rw [emit_operators_aside]
  cases e.emitOperators (·.any fun top => decide (operator.priority ≤ top.priority)) <;> rfl

/-- Two actions that keep expressions alike and have the same result. -/
abbrev ActsAlike {α : Type} (C : Coupling env place) (n m : Nat) (stale : Prop)
    (x : Reading n Expression α) (y : Reading m Expression α) : Prop :=
  C.Sim (AlikeUpTo C.spot stale) Eq x y

/-- A change that has nothing to do with the place and the arrow. -/
theorem modify_sim {change : Expression → Expression}
    (hchange : ∀ e location arrow, change { e with location, arrow } =
      { change e with location, arrow }) :
    ActsAlike C n m stale (modify change) (modify change) := by
  refine .modify ?_
  rintro e _ ⟨location, arrow, hlocation, harrow, rfl⟩
  have hsame := hchange e e.location e.arrow
  have hlocation' := congrArg Expression.location hsame
  have harrow' := congrArg Expression.arrow hsame
  change (change e).location = e.location at hlocation'
  change (change e).arrow = e.arrow at harrow'
  refine ⟨location, arrow, ?_, ?_, hchange e location arrow⟩
  · rwa [hlocation']
  · rwa [harrow']

/-- A change that may meet a defect and has nothing to do with the place and the arrow. -/
theorem of_defect_sim (change : Expression → Except Defect Expression) {e e' : Expression}
    (hchange : ∀ e location arrow, change { e with location, arrow } =
      (change e).map ({ · with location, arrow }))
    (he : AlikeUpTo C.spot stale e e') :
    C.Sim (AlikeUpTo C.spot stale) (AlikeUpTo C.spot stale)
      (Reading.ofDefect (change e) : Reading n Expression Expression)
      (Reading.ofDefect (change e') : Reading m Expression Expression) := by
  obtain ⟨location, arrow, hlocation, harrow, rfl⟩ := he
  have hself : change e = (change e).map ({ · with location := e.location, arrow := e.arrow }) :=
    hchange e e.location e.arrow
  rw [hchange e location arrow]
  cases hr : change e with
  | error defect => exact .abort (C.stops_internal defect)
  | ok r =>
      rw [hr] at hself
      have hlocation' := congrArg Expression.location (Except.ok.inj hself)
      have harrow' := congrArg Expression.arrow (Except.ok.inj hself)
      change r.location = e.location at hlocation'
      change r.arrow = e.arrow at harrow'
      refine .pure ⟨location, arrow, ?_, ?_, rfl⟩
      · rwa [hlocation']
      · rwa [harrow']

/-- What two expressions do with their next tokens, which stand at `l` and `l'`, keeps them
alike. -/
abbrev InStep (C : Coupling env place) (n m : Nat) (stale : Prop) (l l' : Location)
    (x : Reading n Expression Verdict) (y : Reading m Expression Verdict) : Prop :=
  C.Sim (AlikeUpTo C.spot stale) (C.Agrees l l') x y

theorem refuse_sim (htoken : token.Alike C.texts token') (hplace : C.At token l l') :
    InStep C n m stale l l' (refuse token l) (refuse token' l') := by
  refine .bind .get ?_
  rintro e _ ⟨location, arrow, -, -, rfl⟩
  exact .progress_refuse _ htoken hplace

theorem start_sim :
    ActsAlike C n m stale start start :=
  modify_sim fun _ _ _ => rfl

theorem place_sim (hspot : C.spot l l') :
    ActsAlike C n m stale (Expression.place l) (Expression.place l') := by
  refine .modify ?_
  rintro e _ ⟨location, arrow, -, harrow, rfl⟩
  exact ⟨l', arrow, hspot, harrow, rfl⟩

theorem emit_with_sim {make make' : Literals → Code × Literals}
    (hmake : Literals.MakesAlike C.texts make make')
    (within : ∀ pool : Literals, pool.Within (make pool).2)
    (within' : ∀ pool : Literals, pool.Within (make' pool).2) :
    ActsAlike C n m stale (emitWith make within) (emitWith make' within') :=
  .seq (.with_literals hmake within within') fun _ => modify_sim fun _ _ _ => rfl

/-- Ends two expressions. One that is not complete is reported on both sides or on none. -/
theorem finish_sim_up_to :
    ActsAlike C n m stale finish finish := by
  refine .bind .get ?_
  intro e e' he
  obtain ⟨location, arrow, hlocation, -, rfl⟩ := id he
  dsimp only
  split
  · exact .seq (.report_at (C.reports_of_isIncomplete rfl) hlocation) fun _ => .pure rfl
  split
  · exact .seq (.report_at (C.reports_of_isIncomplete rfl) hlocation) fun _ => .pure rfl
  show C.Sim _ _ (if e.isOpen then _ else _) (if e.isOpen then _ else _)
  split
  · exact .seq (.report_at (C.reports_of_isIncomplete rfl) hlocation) fun _ => .pure rfl
  refine .bind (of_defect_sim (·.emitOperators Option.isSome)
    (fun e location arrow => emit_operators_aside e location arrow _) he) ?_
  intro r r' hr
  refine .seq (.set hr) fun _ => ?_
  obtain ⟨-, -, -, -, rfl⟩ := hr
  dsimp only
  split
  · exact .pure rfl
  · exact .abort (C.stops_internal _)

theorem finish_sim :
    C.Sim (Alike C.spot) Eq (finish : Reading n Expression (ValueType × Code))
      (finish : Reading m Expression (ValueType × Code)) :=
  alike_eq ▸ finish_sim_up_to

end Expression

/-! ### Argument lists -/

namespace ArgumentList

variable {σ τ : Type} {ρ : σ → τ → Prop} {expression : Reading n Expression Unit}
  {expression' : Reading m Expression Unit}

section Plain

variable {C : ScanCoupling env place}

theorem read_text_sim (optional lowerCase : Bool) :
    C.Sim ρ Eq (readText env optional lowerCase : Reading n σ Found)
      (readText env optional lowerCase : Reading m τ Found) := by
  refine .seq (.modify_modes .expecting_name) fun _ =>
    .bind (.nested ⟨_, C.spot_of_place C.place_start, rfl⟩ TextArgument.scan_sim) ?_
  rintro ⟨_, argument⟩ ⟨_, _⟩ ⟨-, location, -, rfl⟩
  exact .pure rfl

theorem drop_text_sim :
    C.Sim ρ Eq (dropText env : Reading n σ Found) (dropText env : Reading m τ Found) := by
  refine .seq (.modify_modes .expecting_name) fun _ =>
    .bind (.nested ⟨_, C.spot_of_place C.place_start, rfl⟩ TextArgument.scan_sim) ?_
  rintro ⟨_, argument⟩ ⟨_, _⟩ ⟨-, location, hlocation, rfl⟩
  dsimp only
  split
  · exact .pure rfl
  · exact .seq (.warn_at (.same _) hlocation) fun _ => .pure rfl

theorem drop_value_sim :
    C.Sim ρ Eq (dropValue env : Reading n σ Found) (dropValue env : Reading m τ Found) := by
  refine .bind (.nested ⟨_, C.spot_of_place C.place_start, rfl⟩ DroppedArgument.scan_sim) ?_
  rintro ⟨_, argument⟩ ⟨_, _⟩ ⟨-, location, hlocation, rfl⟩
  dsimp only
  split
  · exact .pure rfl
  · exact .seq (.warn_at (.same _) hlocation) fun _ => .pure rfl

end Plain

/-- The letters of a signature are read in step if each of them is. -/
theorem read_letters_of_letter {manner : Manner} {letters : List Char}
    (hletter : ∀ optional, ∀ letter ∈ letters,
      C.Sim ρ Eq (readLetter env expression manner optional letter : Reading n σ Found)
        (readLetter env expression' manner optional letter : Reading m τ Found))
    (optional : Bool) (count : Nat) (parts : List Code) :
    C.Sim ρ Eq (readLetters env expression manner optional count parts letters : Reading n σ _)
      (readLetters env expression' manner optional count parts letters : Reading m τ _) := by
  induction letters generalizing optional count parts with
  | nil => exact .pure rfl
  | cons letter rest ih =>
      replace ih := ih fun optional letter hmem => hletter optional letter (.tail _ hmem)
      unfold readLetters
      split
      · exact ih _ _ _
      · refine .seq (hletter optional letter (.head _)) fun found => ?_
        cases found with
        | absent => exact .pure rfl
        | dropped => exact ih _ _ _
        | value code => exact ih _ _ _

section Expressions

variable (hexpression : C.Sim (Expression.Alike C.spot) Eq expression expression')

include hexpression

theorem drop_expression_sim :
    C.Sim ρ Eq (dropExpression expression : Reading n σ Found)
      (dropExpression expression' : Reading m τ Found) := by
  refine .bind (.nested ⟨_, C.spot_of_place C.place_start, rfl⟩ hexpression) ?_
  rintro ⟨_, e⟩ ⟨_, _⟩ ⟨-, location, hlocation, rfl⟩
  dsimp only
  split
  · exact .pure rfl
  · exact .seq (.warn_at (.same _) hlocation) fun _ => .pure rfl

theorem read_value_sim (optional : Bool) (type : ValueType) :
    C.Sim ρ Eq (readValue expression optional type : Reading n σ Found)
      (readValue expression' optional type : Reading m τ Found) := by
  refine .bind (.nested ⟨_, C.spot_of_place C.place_start, rfl⟩ hexpression) ?_
  rintro ⟨_, e⟩ ⟨_, _⟩ ⟨-, location, hlocation, rfl⟩
  dsimp only
  split
  · exact .pure rfl
  · refine .bind (.nested ⟨location, hlocation, rfl⟩ Expression.finish_sim) ?_
    rintro ⟨⟨found, code⟩, _⟩ ⟨_, _⟩ ⟨rfl, -⟩
    exact .pure rfl

theorem read_expression_sim (manner : Manner) (optional : Bool) (type : ValueType) :
    C.Sim ρ Eq (readExpression expression manner optional type : Reading n σ Found)
      (readExpression expression' manner optional type : Reading m τ Found) := by
  unfold readExpression
  split
  · exact .seq (.modify_modes .expecting_name) fun _ => read_value_sim hexpression _ _
  · exact read_value_sim hexpression _ _

end Expressions

section Letters

variable {C : ScanCoupling env place}
  (hexpression : C.Sim (Expression.Alike C.spot) Eq expression expression')

include hexpression

theorem read_letter_sim (manner : Manner) (optional : Bool) (letter : Char) :
    C.Sim ρ Eq (readLetter env expression manner optional letter : Reading n σ Found)
      (readLetter env expression' manner optional letter : Reading m τ Found) := by
  unfold readLetter
  split
  · exact read_text_sim _ _
  · exact read_text_sim _ _
  · exact drop_text_sim
  · exact drop_expression_sim hexpression
  · exact drop_value_sim
  · exact .bind (.nested (R := Eq) rfl (Junk.scan_sim _)) fun _ _ _ => .pure rfl
  · split
    · exact read_expression_sim hexpression _ _ _
    · exact .abort (C.stops_internal _)

theorem read_letters_sim (manner : Manner) (optional : Bool) (count : Nat) (parts : List Code)
    (letters : List Char) :
    C.Sim ρ Eq (readLetters env expression manner optional count parts letters : Reading n σ _)
      (readLetters env expression' manner optional count parts letters : Reading m τ _) :=
  read_letters_of_letter
    (fun optional letter _ => read_letter_sim hexpression manner optional letter)
    optional count parts

theorem read_sim (signature : String) (manner : Manner) :
    C.Sim ρ Eq (read env expression signature manner : Reading n σ (Nat × Code))
      (read env expression' signature manner : Reading m τ (Nat × Code)) :=
  read_letters_sim hexpression manner false 0 [] signature.toList

end Letters

end ArgumentList

/-! ### Reading expressions -/

/-- The signature of a function of the language or of the host. -/
def Environment.CallsWith (env : Environment) (signature : String) : Prop :=
  signature ∈ ["f", "l", "c"] ∨
    ∃ code function, env.extensions.function? code = some function ∧
      function.arguments = signature

/-- The arguments of functions are read in step. -/
def Coupling.ReadsCalls (C : Coupling env place) (nested : Reading n Expression Unit)
    (nested' : Reading m Expression Unit) : Prop :=
  ∀ (ρ : Expression → Expression → Prop) (signature : String), env.CallsWith signature →
    C.Sim ρ Eq (ArgumentList.read env nested signature : Reading n Expression (Nat × Code))
      (ArgumentList.read env nested' signature : Reading m Expression (Nat × Code))

namespace Expression

variable {stale : Prop}

theorem feed_number_sim (htoken : token.Alike C.texts token') (type : ValueType)
    {push : Literals → Code × Literals} (hpush : Literals.MakesAlike C.texts push push)
    (within : ∀ pool : Literals, pool.Within (push pool).2) (hplace : C.At token l l') :
    InStep C n m stale l l' (feedNumber token type push l within)
      (feedNumber token' type push l' within) := by
  refine .bind .get ?_
  rintro e _ ⟨location, arrow, hlocation, harrow, rfl⟩
  dsimp only
  split
  · exact refuse_sim htoken hplace
  refine .seq (.set ⟨location, arrow, hlocation, harrow, rfl⟩) fun _ => ?_
  split
  · exact .pure (.handBack htoken hplace)
  · exact .seq start_sim fun _ => .seq (emit_with_sim hpush _ _) fun _ =>
      .seq (modify_sim fun _ _ _ => rfl) fun _ =>
      .seq (place_sim hplace.spot) fun _ => .pure .more

/-- Takes a word that is neither a variable nor an object. -/
theorem feed_operand_sim (hname : C.texts.rel name name') (hspot : C.spot l l') :
    InStep C n m stale l l' (feedOperand env name l) (feedOperand env name' l') := by
  refine .seq (modify_sim fun _ _ _ => rfl) fun _ => .bind .get ?_
  rintro e _ ⟨location, arrow, hlocation, -, rfl⟩
  dsimp only
  split
  · exact .pure (.handBack (.name hname) hspot)
  refine .seq start_sim fun _ => .seq .locals fun locals => ?_
  simp only [C.texts.toLower_eq hname]
  split
  · exact .seq (modify_sim fun _ _ _ => rfl) fun _ =>
      .seq (modify_sim fun _ _ _ => rfl) fun _ => .pure .more
  split
  · exact .seq (emit_with_sim (.fetch_global _ (C.texts.refl _)) _ _) fun _ =>
      .seq (modify_sim fun _ _ _ => rfl) fun _ => .pure .more
  split
  · exact .seq (modify_sim fun _ _ _ => rfl) fun _ => .pure .more
  · exact .seq (emit_with_sim (.push_float _) _ _) fun _ =>
      .seq (modify_sim fun _ _ _ => rfl) fun _ =>
      .seq (place_sim hspot) fun _ => .seq (.warn_at (.same _) hspot) fun _ => .pure .more

theorem feed_member_sim (hname : C.texts.rel name name') (hspot : C.spot l l') :
    InStep C n m stale l l' (feedMember env name l) (feedMember env name' l') := by
  refine .seq (modify_sim fun _ _ _ => rfl) fun _ => .bind .get ?_
  rintro e _ ⟨location, arrow, hlocation, -, rfl⟩
  dsimp only
  simp only [C.texts.toLower_eq hname]
  split
  · exact refuse_sim (.name hname) hspot
  · exact .seq (emit_with_sim (.fetch_member _ (C.texts.refl _) (C.texts.refl _) _) _ _) fun _ =>
      .seq (modify_sim fun _ _ _ => rfl) fun _ => .pure .more

section Call

variable {nested : Reading n Expression Unit} {nested' : Reading m Expression Unit}
  (hread : C.ReadsCalls nested nested')

include hread

theorem read_arguments_sim {signature : String} (hsignature : env.CallsWith signature) :
    ActsAlike C n m stale (readArguments env nested signature)
      (readArguments env nested' signature) := by
  refine .seq (hread _ signature hsignature) fun found => ?_
  exact .seq (modify_sim fun _ _ _ => rfl) fun _ => .pure rfl

omit hread in
/-- Behind a function it does not matter any more whether there was an arrow in front of it. -/
theorem called_sim (type : ValueType) :
    ActsAlike C n m stale (called type) (called type) := by
  refine .seq (.modify ?_) fun _ => .pure rfl
  rintro e _ ⟨location, arrow, hlocation, -, rfl⟩
  exact ⟨location, false, hlocation, Or.inr rfl, rfl⟩

theorem call_builtin_sim (word : Builtin) :
    ActsAlike C n m stale (callBuiltin env nested word) (callBuiltin env nested' word) := by
  have hemit : ∀ (code : Code) (type : ValueType), ActsAlike C n m stale
      (modify (·.emit code) >>= fun _ => called type)
      (modify (·.emit code) >>= fun _ => called type) :=
    fun _ _ => .seq (modify_sim fun _ _ _ => rfl) fun _ => called_sim _
  -- The calls that take the object that stands in front of them.
  have htake : ∀ {make : String → Literals → Code × Literals}
      (_ : ∀ object, Literals.MakesAlike C.texts (make object) (make object))
      (within : ∀ object (pool : Literals), pool.Within (make object pool).2) (type : ValueType),
      C.Sim (AlikeUpTo C.spot stale) Eq
        (do
          emitWith (make (← get).object) (within _)
          modify ({ · with object := "" })
          called type : Reading n Expression Bool)
        (do
          emitWith (make (← get).object) (within _)
          modify ({ · with object := "" })
          called type : Reading m Expression Bool) := by
    intro make hmake within type
    refine .bind .get ?_
    rintro e _ ⟨location, arrow, -, -, rfl⟩
    exact .seq (emit_with_sim (hmake _) _ _) fun _ =>
      .seq (modify_sim fun _ _ _ => rfl) fun _ => called_sim _
  unfold callBuiltin
  split
  · exact .seq (read_arguments_sim hread (Or.inl (by simp))) fun _ => hemit _ _
  · exact hemit _ _
  · exact .seq (read_arguments_sim hread (Or.inl (by simp))) fun _ => hemit _ _
  · exact .seq (read_arguments_sim hread (Or.inl (by simp))) fun _ => hemit _ _
  · exact .seq (read_arguments_sim hread (Or.inl (by simp))) fun _ =>
      htake (fun id => .with_reference id _ _) (by simp) _
  · exact hemit _ _
  · exact htake (fun id => .with_reference id _ _) (by simp) _
  · exact .pure rfl

theorem call_extension_sim (code : Int) (hspot : C.spot l l') :
    ActsAlike C n m stale (callExtension env nested code l)
      (callExtension env nested' code l') := by
  cases hfunction : env.extensions.function? code with
  | none =>
      rw [call_extension_of_none hfunction, call_extension_of_none hfunction]
      exact .pure rfl
  | some function =>
      rw [call_extension_of_some hfunction, call_extension_of_some hfunction]
      have hcall : C.Sim (AlikeUpTo C.spot stale) Eq (callFunction env nested function l)
          (callFunction env nested' function l') := by
        refine .seq start_sim fun _ => .seq (place_sim hspot) fun _ =>
          .seq (read_arguments_sim hread (Or.inr ⟨code, function, hfunction, rfl⟩)) fun optionals =>
          .bind .get ?_
        rintro e _ ⟨location, arrow, -, -, rfl⟩
        exact .seq (.with_literals (.call _ _ _) _ _) fun fragment =>
          .seq (modify_sim fun _ _ _ => rfl) fun _ =>
          .seq (.of_defect _) fun _ =>
          .seq (modify_sim fun _ _ _ => rfl) fun _ => called_sim _
      refine .bind .get ?_
      rintro e _ ⟨location, arrow, -, -, rfl⟩
      dsimp only
      split
      · exact .seq (.warn_at (.same _) hspot) fun _ =>
          .seq (modify_sim fun _ _ _ => rfl) fun _ => hcall
      · exact hcall

theorem call_sim (word : Keyword) (hspot : C.spot l l') :
    ActsAlike C n m stale (call env nested l word) (call env nested' l' word) := by
  cases word with
  | builtin word => exact call_builtin_sim hread word
  | extension code => exact call_extension_sim hread code hspot

/-- Takes a keyword behind an object. Whether there is an arrow in between matters here. -/
theorem feed_method_sim (word : Keyword) (hplace : place l l') :
    InStep C n m False l l' (feedMethod env nested word l) (feedMethod env nested' word l') := by
  have hspot := C.spot_of_place hplace
  refine .bind .get ?_
  rintro e _ ⟨location, arrow, hlocation, harrow, rfl⟩
  obtain rfl := harrow.resolve_left id
  dsimp only
  split
  · split
    · exact .seq start_sim fun _ => .seq (place_sim hspot) fun _ =>
        .seq (call_sim hread _ hspot) fun _ => .pure .more
    · exact .seq start_sim fun _ => .seq (place_sim hspot) fun _ =>
        .seq (call_sim hread _ hspot) fun _ => .pure .more
    · exact refuse_sim (.keyword _) hplace
    · refine .seq (call_extension_sim hread _ hspot) fun called => ?_
      split
      · exact .pure .more
      · exact refuse_sim (.keyword _) hplace
  · exact refuse_sim (.keyword _) hplace

end Call

theorem feed_joint_sim (sign : Special) (hspot : C.spot l l') :
    InStep C n m False l l' (feedJoint sign l) (feedJoint sign l') := by
  refine .bind .get ?_
  rintro e _ ⟨location, arrow, hlocation, harrow, rfl⟩
  obtain rfl := harrow.resolve_left id
  dsimp only
  split
  · exact .seq (.set ⟨l', e.arrow, hspot, Or.inr rfl, rfl⟩) fun _ => .pure .more
  split
  · exact .seq (.set ⟨location, true, hlocation, Or.inr rfl, rfl⟩) fun _ => .pure .more
  split
  · exact .seq (.set ⟨location, e.arrow, hlocation, Or.inr rfl, rfl⟩) fun _ => .pure .more
  · exact refuse_sim (.special _) hspot

theorem feed_before_operand_sim (sign : Special) (hspot : C.spot l l') :
    InStep C n m stale l l' (feedBeforeOperand sign l) (feedBeforeOperand sign l') := by
  refine .bind .get ?_
  rintro e _ ⟨location, arrow, hlocation, harrow, rfl⟩
  split
  · exact .seq (.set ⟨l', arrow, hspot, harrow, rfl⟩) fun _ => .pure .more
  · exact .seq (.set ⟨l', arrow, hspot, harrow, rfl⟩) fun _ => .pure .more
  · exact .seq (.set ⟨l', arrow, hspot, harrow, rfl⟩) fun _ => .pure .more
  · exact refuse_sim (.special _) hspot

theorem feed_behind_operand_sim (sign : Special) (hspot : C.spot l l') :
    InStep C n m stale l l' (feedBehindOperand sign l) (feedBehindOperand sign l') := by
  refine .bind .get ?_
  rintro e _ ⟨location, arrow, hlocation, harrow, rfl⟩
  split
  · exact .pure (.handBack (.special _) hspot)
  · show C.Sim _ _ (if e.isOpen then _ else _) (if e.isOpen then _ else _)
    split
    · exact .bind (of_defect_sim close close_aside ⟨location, arrow, hlocation, harrow, rfl⟩)
        fun _ _ hr => .seq (.set hr) fun _ => .pure .more
    · exact .seq (.set ⟨l', arrow, hspot, harrow, rfl⟩) fun _ =>
        .pure (.handBack (.special _) hspot)
  · refine .seq (.set ⟨l', arrow, hspot, harrow, rfl⟩) fun _ => ?_
    split
    · exact refuse_sim (.special _) hspot
    next operator _ =>
      show C.Sim _ _ (if operator ≠ .mul ∧ operator ≠ .div ∧ e.argument ∧ !e.isOpen then _ else _)
        (if operator ≠ .mul ∧ operator ≠ .div ∧ e.argument ∧ !e.isOpen then _ else _)
      split
      · exact .pure (.handBack (.special _) hspot)
      · exact .bind (of_defect_sim (·.pushBinary operator)
          (fun e location arrow => push_binary_aside e location arrow operator)
          ⟨l', arrow, hspot, harrow, rfl⟩) fun _ _ hr => .seq (.set hr) fun _ => .pure .more

/-! An arrow matters only behind an object. So where there is no object, two expressions may differ
in whether an arrow has been read. -/

section Pointwise

variable {p q : Expression} {s t : Session} {hs : s.unread ≤ n} {ht : t.unread ≤ m}

/-- Where there is an object, the arrow is the same on both sides. -/
theorem AlikeUpTo.of_object (h : AlikeUpTo place stale p q) (hobject : stale → p.object = "")
    (hne : (!p.object.isEmpty) = true) : AlikeUpTo place False p q := by
  obtain ⟨location, arrow, hlocation, hstale | harrow, rfl⟩ := h
  · rw [hobject hstale] at hne
    exact absurd hne (by decide)
  · exact ⟨location, arrow, hlocation, Or.inr harrow, rfl⟩

theorem AlikeUpTo.weaken (h : AlikeUpTo place False p q) : AlikeUpTo place stale p q := by
  obtain ⟨location, arrow, hlocation, harrow, rfl⟩ := h
  exact ⟨location, arrow, hlocation, Or.inr (harrow.resolve_left id), rfl⟩

/-- Behind an object the sides agree in the arrow, and they still do so afterwards. -/
theorem ends_of_object {x : Reading n Expression Verdict} {y : Reading m Expression Verdict}
    (hx : InStep C n m False l l' x y) (hp : AlikeUpTo C.spot stale p q)
    (hobject : stale → p.object = "") (hne : (!p.object.isEmpty) = true) (hrel : C.rel s t) :
    C.Ends (AlikeUpTo C.spot stale) (C.Agrees l l') (x.run p s hs) (y.run q t ht) :=
  (hx _ _ _ _ _ _ (hp.of_object hobject hne) hrel).mono fun _ _ => .weaken

variable (hp : AlikeUpTo C.spot stale p q) (hobject : stale → p.object = "") (hrel : C.rel s t)

include hp hobject hrel

theorem feed_name_ends (hname : C.texts.rel name name') (hspot : C.spot l l') :
    C.Ends (AlikeUpTo C.spot stale) (C.Agrees l l')
      ((feedName env name l : Reading n Expression Verdict).run p s hs)
      ((feedName env name' l' : Reading m Expression Verdict).run q t ht) := by
  by_cases hne : (!p.object.isEmpty) = true
  · refine ends_of_object (.bind .get ?_) hp hobject hne hrel
    rintro e _ ⟨location, arrow, hlocation, harrow, rfl⟩
    obtain rfl := harrow.resolve_left id
    dsimp only
    split
    · exact feed_operand_sim hname hspot
    split
    · exact .seq (.set ⟨location, e.arrow, hlocation, Or.inr rfl, rfl⟩) fun _ =>
        .seq (.warn_at (.same _) hspot) fun _ => feed_operand_sim hname hspot
    split
    · exact feed_member_sim hname hspot
    · exact refuse_sim (.name hname) hspot
  · have hends : C.Ends (AlikeUpTo C.spot stale) (C.Agrees l l')
        ((feedOperand env name l : Reading n Expression Verdict).run p s hs)
        ((feedOperand env name' l' : Reading m Expression Verdict).run q t ht) :=
      feed_operand_sim hname hspot _ _ _ _ _ _ hp hrel
    obtain ⟨location, arrow, -, -, rfl⟩ := hp
    have hempty : p.object.isEmpty = true := by simpa using hne
    unfold feedName
    rw [Reading.run_get_bind, Reading.run_get_bind]
    dsimp only
    rw [if_pos hempty, if_pos hempty]
    exact hends

theorem feed_special_ends (sign : Special) (hspot : C.spot l l') :
    C.Ends (AlikeUpTo C.spot stale) (C.Agrees l l')
      ((feedSpecial sign l : Reading n Expression Verdict).run p s hs)
      ((feedSpecial sign l' : Reading m Expression Verdict).run q t ht) := by
  obtain ⟨location, arrow, hlocation, harrow, rfl⟩ := id hp
  unfold feedSpecial
  rw [Reading.run_get_bind, Reading.run_get_bind]
  dsimp only
  split
  next hne => exact ends_of_object (feed_joint_sim sign hspot) hp hobject hne hrel
  split
  · refine Sim.seq (.set ⟨l', arrow, hspot, harrow, rfl⟩) (fun _ => .pure ?_) _ _ _ _ _ _ hp hrel
    split
    · exact .more
    · exact .handBack (.special _) hspot
  refine Sim.seq (.set ⟨location, arrow, hlocation, harrow, rfl⟩) (fun _ => ?_) _ _ _ _ _ _ hp hrel
  split
  · exact .seq (place_sim hspot) fun _ => .pure (.handBack (.special _) hspot)
  split
  · exact feed_before_operand_sim sign hspot
  · exact feed_behind_operand_sim sign hspot

variable {nested : Reading n Expression Unit} {nested' : Reading m Expression Unit}
  (hread : C.ReadsCalls nested nested')

include hread

theorem feed_function_ends (word : Keyword) (hplace : place l l') :
    C.Ends (AlikeUpTo C.spot stale) (C.Agrees l l')
      ((feedFunction env nested word l : Reading n Expression Verdict).run p s hs)
      ((feedFunction env nested' word l' : Reading m Expression Verdict).run q t ht) := by
  have hspot := C.spot_of_place hplace
  have hfirst : AlikeUpTo C.spot stale { p with first := false } { q with first := false } := by
    obtain ⟨location, arrow, hlocation, harrow, rfl⟩ := hp
    exact ⟨location, arrow, hlocation, harrow, rfl⟩
  obtain ⟨location, arrow, -, -, rfl⟩ := hp
  unfold feedFunction
  rw [Reading.run_modify_bind, Reading.run_modify_bind, Reading.run_get_bind, Reading.run_get_bind]
  dsimp only
  split
  next hne => exact ends_of_object (feed_method_sim hread word hplace) hfirst hobject hne hrel
  split
  · exact Sim.pure (.handBack (.keyword _) hplace) _ _ _ _ _ _ hfirst hrel
  · refine Sim.seq start_sim (fun _ => .seq (place_sim hspot) fun _ =>
      .seq (call_sim hread word hspot) fun called => ?_) _ _ _ _ _ _ hfirst hrel
    split
    · exact .pure .more
    · exact refuse_sim (.keyword _) hplace

theorem feed_keyword_ends (word : Keyword) (hplace : place l l') :
    C.Ends (AlikeUpTo C.spot stale) (C.Agrees l l')
      ((feedKeyword env nested word l : Reading n Expression Verdict).run p s hs)
      ((feedKeyword env nested' word l' : Reading m Expression Verdict).run q t ht) := by
  have hliteral := C.literal_alike hplace
  have hspot := C.spot_of_place hplace
  unfold feedKeyword
  split
  · split
    · exact feed_name_ends hp hobject hrel (C.texts.unquote hliteral) hspot
    · exact feed_function_ends hp hobject hrel hread _ hplace
  · split
    · exact feed_name_ends hp hobject hrel hliteral hspot
    · exact feed_function_ends hp hobject hrel hread _ hplace

/-- Two expressions that are offered tokens that are alike agree on them. -/
theorem feed_ends (htoken : token.Alike C.texts token') (hplace : C.At token l l') :
    C.Ends (AlikeUpTo C.spot stale) (C.Agrees l l') ((feed env nested token l).run p s hs)
      ((feed env nested' token' l').run q t ht) := by
  cases htoken with
  | int value =>
      exact feed_number_sim (.int value) _ (.push_int value) _ hplace _ _ _ _ _ _ hp hrel
  | float value =>
      exact feed_number_sim (.float value) _ (.push_float value) _ hplace _ _ _ _ _ _ hp hrel
  | name hname => exact feed_name_ends hp hobject hrel hname hplace
  | keyword word => exact feed_keyword_ends hp hobject hrel hread word hplace
  | special sign => exact feed_special_ends hp hobject hrel sign hplace
  | comment text => exact refuse_sim (.comment text) hplace _ _ _ _ _ _ hp hrel
  | endOfText => exact refuse_sim .endOfText hplace _ _ _ _ _ _ hp hrel

end Pointwise

theorem feed_name_sim (hname : C.texts.rel name name') (hspot : C.spot l l') :
    C.Sim (Alike C.spot) (C.Agrees l l') (feedName env name l : Reading n Expression Verdict)
      (feedName env name' l' : Reading m Expression Verdict) := by
  rw [alike_eq]
  exact fun _ _ _ _ _ _ hp hrel => feed_name_ends hp False.elim hrel hname hspot

theorem feed_special_sim (sign : Special) (hspot : C.spot l l') :
    C.Sim (Alike C.spot) (C.Agrees l l') (feedSpecial sign l : Reading n Expression Verdict)
      (feedSpecial sign l' : Reading m Expression Verdict) := by
  rw [alike_eq]
  exact fun _ _ _ _ _ _ hp hrel => feed_special_ends hp False.elim hrel sign hspot

theorem reads_calls {C : ScanCoupling env place} {nested : Reading n Expression Unit}
    {nested' : Reading m Expression Unit} (hnested : C.Sim (Alike C.spot) Eq nested nested') :
    C.ReadsCalls nested nested' :=
  fun _ signature _ => ArgumentList.read_sim hnested signature _

theorem feed_sim {C : ScanCoupling env place} {nested : Reading n Expression Unit}
    {nested' : Reading m Expression Unit} (hnested : C.Sim (Alike C.spot) Eq nested nested')
    (htoken : token.Alike C.texts token') (hplace : C.At token l l') :
    C.Sim (Alike C.spot) (C.Agrees l l') (feed env nested token l)
      (feed env nested' token' l') := by
  rw [alike_eq]
  exact fun _ _ _ _ _ _ hp hrel => feed_ends hp False.elim hrel (reads_calls hnested) htoken hplace

theorem scan_sim {C : ScanCoupling env place} (n m : Nat) :
    C.Sim (Alike C.spot) Eq (scan env n) (scan env m) := by
  -- The arguments of a function are read from what is left behind its keyword.
  induction n using Nat.strongRecOn generalizing m with
  | ind n ih =>
      rw [scan, scan]
      exact .scan (fun _ _ _ => rfl) fun k hk k' _ _ _ _ _ htoken hplace =>
        feed_sim (ih k hk k') htoken hplace

end Expression

end QuestScript
