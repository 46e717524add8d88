import QuestScript.Compile
import QuestScript.Proofs.Outcomes

/-!
# Every scan comes to an end

A reader that has been given a token may start another reader on the same token. The token counts
as put back then: whoever is started pulls it first. If nobody took it, the two readers would
pass it to and fro for ever.

The main statement is `Reading.scans_terminate`. In every scan a turn after which the reader wants
more leaves less to read, so that the number of turns is bounded by what there is to read, and no
scan leaves more than it found. Wherever a reader is started on a token that has been delivered,
this is the same as a scan of the text with the token put back, and the token is taken. The three
ways to compile a text are scans whose number of turns is bounded by the length of the text.
-/

namespace QuestScript

/-- The reader keeps the token: nothing is left to whoever reads next. -/
def Verdict.Keeps (verdict : Verdict) : Prop :=
  verdict = .more ∨ verdict = .done

namespace Reading

variable {n : Nat} {σ τ α β : Type}

/-! ### Turns in a row -/

section Turns

variable {env : Environment} {mayEnd : σ → Bool}
  {feed : (m : Nat) → m < n → Token → Location → Reading m σ Verdict}

/-- Takes at most this many turns of a scan. There is a result if the scan is over by then. -/
def runTurns (env : Environment) (mayEnd : σ → Bool)
    (feed : (m : Nat) → m < n → Token → Location → Reading m σ Verdict) :
    Nat → σ → (s : Session) → s.unread ≤ n → Option (Result σ Unit)
  | 0, _, _, _ => none
  | count + 1, p, s, h =>
    match hturn : turn env mayEnd feed p s h with
    | .last result => some result
    | .again q t =>
      runTurns env mayEnd feed count q t
        (Nat.le_trans (Nat.le_of_lt (unread_lt_of_turn hturn)) h)

theorem run_turns_of_last {count : Nat} {p : σ} {s : Session} {h : s.unread ≤ n}
    {result : Result σ Unit} (hturn : turn env mayEnd feed p s h = .last result) :
    runTurns env mayEnd feed (count + 1) p s h = some result := by
  unfold runTurns
  split <;> simp_all

theorem run_turns_of_again {count : Nat} {p q : σ} {s t : Session} {h : s.unread ≤ n}
    (hturn : turn env mayEnd feed p s h = .again q t) (ht : t.unread ≤ n) :
    runTurns env mayEnd feed (count + 1) p s h = runTurns env mayEnd feed count q t ht := by
  rw [runTurns]
  split <;> simp_all

/-- A scan is over after as many turns as there is to read, and one more for the end. -/
theorem run_turns_eq {count : Nat} {p : σ} {s : Session} {h : s.unread ≤ n}
    (hcount : s.unread < count) :
    runTurns env mayEnd feed count p s h = some (scanFrom env mayEnd feed p s h) := by
  induction count generalizing p s with
  | zero => omega
  | succ count ih =>
      cases hturn : turn env mayEnd feed p s h with
      | last result => rw [run_turns_of_last hturn, scan_from_of_last hturn]
      | again q t =>
          have hlt := unread_lt_of_turn hturn
          have ht : t.unread ≤ n := by omega
          rw [run_turns_of_again hturn ht, scan_from_of_again hturn ht]
          exact ih (by omega)

end Turns

/-! ### Readers that start with a token that has been delivered -/

section Starting

variable {env : Environment} {mayEnd : σ → Bool}
  {feed : (m : Nat) → Token → Location → Reading m σ Verdict} {p : σ} {s : Session}
  {token : Token} {location : Location}

/-- A scan does not depend on the bound that its reader is given. -/
theorem scan_from_bound {m : Nat} (h : s.unread ≤ n) (h' : s.unread ≤ m) :
    scanFrom env mayEnd (fun k (_ : k < n) => feed k) p s h =
      scanFrom env mayEnd (fun k (_ : k < m) => feed k) p s h' := by
  induction hunread : s.unread using Nat.strongRecOn generalizing p s with
  | ind unread ih =>
      subst hunread
      have hsame : turn env mayEnd (fun k (_ : k < n) => feed k) p s h =
          turn env mayEnd (fun k (_ : k < m) => feed k) p s h' := rfl
      cases hturn : turn env mayEnd (fun k (_ : k < n) => feed k) p s h with
      | last result =>
          rw [scan_from_of_last hturn, scan_from_of_last (hsame.symm.trans hturn)]
      | again q t =>
          have hlt := unread_lt_of_turn hturn
          rw [scan_from_of_again hturn (by omega),
            scan_from_of_again (hsame.symm.trans hturn) (by omega)]
          exact ih t.unread hlt _ _ rfl

/-- To start a reader on a token that has been delivered is to put the token back and to scan. The
token is taken, so that less is left than with the token put back. -/
structure StartsOn (start scan : (m : Nat) → Reading m σ Unit) (p : σ) (s : Session)
    (token : Token) (location : Location) : Prop where
  eq_scan : runOn start p (s.redeliver token) = runOn scan p (s.putBack token location)
  unread_lt : (runOn scan p (s.putBack token location)).session.unread <
    (s.putBack token location).unread

theorem unread_redeliver_lt_put_back :
    (s.redeliver token).unread < (s.putBack token location).unread := by
  simp [Session.unread, Session.redeliver, Session.putBack, Scanner.unread, Scanner.redeliver,
    Scanner.putBack]

/-- A reader can be started on a token that it keeps. -/
theorem starts_on_of_keeps {loop : (m : Nat) → Reading m σ Unit}
    (hloop : ∀ m, loop m = scan env mayEnd fun k _ => feed k) (hend : token ≠ .endOfText)
    (hcomment : ∀ text, token ≠ .comment text)
    (hkeeps : ∀ verdict, (runOn (fun m => feed m token location) p (s.redeliver token)).outcome =
      .ok verdict → verdict.Keeps) :
    StartsOn (fun m => starting (feed m) (loop m) (some (token, location))) loop p s token
      location := by
  obtain rfl : loop = fun _ => scan env mayEnd fun k _ => feed k := funext hloop
  have hlt : (s.redeliver token).unread < (s.putBack token location).unread :=
    unread_redeliver_lt_put_back
  have hturn : turn env mayEnd (fun k _ => feed k) p (s.putBack token location) (Nat.le_refl _) =
      .ofAnswer location none (runOn (fun m => feed m token location) p (s.redeliver token)) :=
    turn_of_token rfl hend hcomment hlt
  -- The first turn of the scan pulls the token that was put back, which is the one the reader is
  -- started on.
  have heq : runOn (fun m => starting (feed m) (scan env mayEnd fun k _ => feed k)
      (some (token, location))) p (s.redeliver token) =
      runOn (fun _ => scan env mayEnd fun k _ => feed k) p (s.putBack token location) := by
    have hle := (feed (s.redeliver token).unread token location).unread_run_le p
      (s.redeliver token) (Nat.le_refl _)
    rcases hrun : runOn (fun m => feed m token location) p (s.redeliver token) with
      ⟨outcome, q, t⟩
    rw [hrun] at hturn hkeeps
    rw [show (feed (s.redeliver token).unread token location).run p (s.redeliver token) _ = _ from
      hrun] at hle
    rw [runOn, run_starting (s.started_redeliver token) (Nat.le_refl _)]
    show _ = scanFrom _ _ _ _ _ _
    cases outcome with
    | error reason => rw [run_bind_of_error hrun, scan_from_of_last hturn]; rfl
    | ok verdict =>
        rw [run_bind_of_ok hrun hle]
        obtain rfl | rfl := hkeeps verdict rfl
        · have ht : t.unread ≤ (s.putBack token location).unread := by
            exact Nat.le_trans hle (Nat.le_of_lt hlt)
          rw [scan_from_of_again hturn ht]
          exact scan_from_bound hle ht
        · rw [scan_from_of_last hturn]; rfl
  refine ⟨heq, ?_⟩
  rw [← heq]
  exact Nat.lt_of_le_of_lt (Reading.unread_run_le _ _ _ _) hlt

end Starting

/-- The reader keeps the token that it is offered, unless an error stops it. -/
abbrev KeepsToken (n : Nat) (x : Reading n σ Verdict) (p : σ) : Prop :=
  Yields x p fun verdict _ => verdict.Keeps

end Reading

open Reading (Yields KeepsToken)

/-! ### Readers that keep their first token -/

theorem Declaration.feed_begin_keeps (env : Environment) (token : Token) (location : Location)
    {n : Nat} :
    KeepsToken n (feed env token location) .begin := by
  refine .get ?_
  cases token with
  | keyword word =>
      cases htype : typeOfWord? word with
      | some type =>
          simp only [htype]
          exact .after fun _ _ => .pure (Or.inl rfl)
      | none =>
          simp only [htype]
          exact .fail
  | _ => exact .fail

namespace Expression

variable {n : Nat} {e : Expression} {token : Token} {location : Location}
  {nested : Reading n Expression Unit}

/-- An expression that has to be there, and that has an operand to come. -/
structure Wants (e : Expression) : Prop where
  nextOperand : e.nextOperand = true
  optional : e.progress.optional = false

theorem refuse_yields {post : Verdict → Expression → Prop} (hwants : e.Wants) :
    Yields (refuse token location : Reading n Expression Verdict) e post := by
  refine .get ?_
  simp only [Progress.refuse, hwants.optional, Bool.false_and, Bool.false_eq_true, if_false]
  exact .fail

theorem feed_number_keeps {type : ValueType} {push : Literals → Code × Literals}
    {within : ∀ pool : Literals, pool.Within (push pool).2} (hwants : e.Wants) :
    KeepsToken n (feedNumber token type push location within) e := by
  refine .get ?_
  split
  · exact refuse_yields hwants
  · refine .after fun _ _ => ?_
    simp only [hwants.nextOperand, Bool.not_true, Bool.false_eq_true, if_false]
    exact .after fun _ _ => .after fun _ _ => .after fun _ _ => .after fun _ _ =>
      .pure (Or.inl rfl)

theorem feed_operand_keeps (env : Environment) (name : String) (hwants : e.Wants) :
    KeepsToken n (feedOperand env name location) e := by
  refine .modify (.get ?_)
  simp only [hwants.nextOperand, Bool.not_true, Bool.false_eq_true, if_false]
  refine .after fun _ _ => .after fun locals _ => ?_
  split
  · exact .after fun _ _ => .after fun _ _ => .pure (Or.inl rfl)
  · split
    · exact .after fun _ _ => .after fun _ _ => .pure (Or.inl rfl)
    · split
      · exact .after fun _ _ => .pure (Or.inl rfl)
      · exact .after fun _ _ => .after fun _ _ => .after fun _ _ => .after fun _ _ =>
          .pure (Or.inl rfl)

theorem feed_member_keeps (env : Environment) (name : String) (hwants : e.Wants) :
    KeepsToken n (feedMember env name location) e := by
  refine .modify (.get ?_)
  dsimp only
  split
  · exact refuse_yields ⟨hwants.nextOperand, hwants.optional⟩
  · exact .after fun _ _ => .after fun _ _ => .pure (Or.inl rfl)

theorem feed_name_keeps (env : Environment) (name : String) (hwants : e.Wants) :
    KeepsToken n (feedName env name location) e := by
  refine .get ?_
  split
  · exact feed_operand_keeps env name hwants
  · split
    · exact .set (.warn (feed_operand_keeps env name ⟨hwants.nextOperand, hwants.optional⟩))
    · split
      · exact feed_member_keeps env name hwants
      · exact refuse_yields hwants

/-- A word that is no function changes nothing. -/
theorem call_builtin_yields (env : Environment) (word : Builtin) :
    Yields (callBuiltin env nested word) e fun isCall q => isCall = false → q = e := by
  cases word with
  | getSquareRoot | random | scriptRunning =>
      exact .after fun _ _ => .after fun _ _ => .after fun _ _ => .pure nofun
  | menuMode | getSecondsPassed => exact .after fun _ _ => .after fun _ _ => .pure nofun
  | getDistance =>
      exact .after fun _ _ => .after fun _ _ => .after fun _ _ => .after fun _ _ =>
        .after fun _ _ => .pure nofun
  | getDisabled =>
      exact .after fun _ _ => .after fun _ _ => .after fun _ _ => .after fun _ _ =>
        .pure nofun
  | _ => exact .pure fun _ => rfl

theorem call_extension_yields (env : Environment) (code : Int) :
    Yields (callExtension env nested code location) e fun isCall q => isCall = false → q = e := by
  cases hfunction : env.extensions.function? code with
  | none =>
      rw [call_extension_of_none hfunction]
      exact .pure fun _ => rfl
  | some function =>
      rw [call_extension_of_some hfunction]
      have hcall (q : Expression) : Yields (callFunction env nested function location) q
          fun isCall q => isCall = false → q = e :=
        .after fun _ _ => .after fun _ _ => .after fun _ _ => .after fun _ _ =>
          .after fun _ _ => .after fun _ _ => .after fun _ _ => .after fun _ _ =>
          .after fun _ _ => .pure nofun
      refine .get ?_
      split
      · exact .after fun _ _ => .after fun _ _ => hcall _
      · exact hcall _

theorem call_yields (env : Environment) (word : Keyword) :
    Yields (call env nested location word) e fun isCall q => isCall = false → q = e := by
  cases word with
  | builtin word => exact call_builtin_yields env word
  | extension code => exact call_extension_yields env code

theorem feed_method_keeps (env : Environment) (word : Keyword) (hwants : e.Wants) :
    KeepsToken n (feedMethod env nested word location) e := by
  refine .get ?_
  split
  · split
    · exact .after fun _ _ => .after fun _ _ => .after fun _ _ => .pure (Or.inl rfl)
    · exact .after fun _ _ => .after fun _ _ => .after fun _ _ => .pure (Or.inl rfl)
    · exact refuse_yields hwants
    · refine .bind (call_extension_yields env _) fun isCall q hq => ?_
      cases isCall with
      | true => exact .pure (Or.inl rfl)
      | false =>
          obtain rfl := hq rfl
          exact refuse_yields hwants
  · exact refuse_yields hwants

theorem feed_function_keeps (env : Environment) (word : Keyword) (hwants : e.Wants) :
    KeepsToken n (feedFunction env nested word location) e := by
  refine .modify (.get ?_)
  simp only [hwants.nextOperand, Bool.not_true, Bool.false_eq_true, if_false]
  split
  · exact feed_method_keeps env word ⟨rfl, hwants.optional⟩
  · refine .modify (.modify (.bind (call_yields env word) fun isCall q hq => ?_))
    cases isCall with
    | true => exact .pure (Or.inl rfl)
    | false =>
        obtain rfl := hq rfl
        exact refuse_yields ⟨rfl, hwants.optional⟩

theorem feed_keyword_keeps (env : Environment) (word : Keyword) (hwants : e.Wants) :
    KeepsToken n (feedKeyword env nested word location) e := by
  unfold feedKeyword
  split <;> split
  · exact feed_name_keeps env _ hwants
  · exact feed_function_keeps env _ hwants
  · exact feed_name_keeps env _ hwants
  · exact feed_function_keeps env _ hwants

theorem feed_joint_keeps (sign : Special) (hwants : e.Wants) :
    KeepsToken n (feedJoint sign location) e := by
  refine .get ?_
  split
  · exact .set (.pure (Or.inl rfl))
  · split
    · exact .set (.pure (Or.inl rfl))
    · split
      · exact .set (.pure (Or.inl rfl))
      · exact refuse_yields hwants

theorem feed_before_operand_keeps (sign : Special) (hwants : e.Wants) :
    KeepsToken n (feedBeforeOperand sign location) e := by
  refine .get ?_
  split
  · exact .set (.pure (Or.inl rfl))
  · exact .set (.pure (Or.inl rfl))
  · exact .set (.pure (Or.inl rfl))
  · exact refuse_yields hwants

theorem feed_special_keeps {sign : Special} (hwants : e.Wants) (hnewline : sign ≠ .newline)
    (hcomma : sign = .comma → e.first = true) :
    KeepsToken n (feedSpecial sign location) e := by
  refine .get ?_
  split
  · exact feed_joint_keeps sign hwants
  · split
    next hsign =>
      rw [hcomma (by simpa using hsign)]
      exact .set (.pure (Or.inl rfl))
    next =>
      refine .set ?_
      rw [if_neg (by simpa using hnewline), if_pos hwants.nextOperand]
      exact feed_before_operand_keeps sign ⟨hwants.nextOperand, hwants.optional⟩

/-- An expression that wants an operand keeps every token but the end of the line. A comma has to
be the first token. -/
theorem feed_keeps (env : Environment) (hwants : e.Wants) (hnewline : token ≠ .special .newline)
    (hcomma : token = .special .comma → e.first = true) :
    KeepsToken n (feed env nested token location) e := by
  cases token with
  | int | float => exact feed_number_keeps hwants
  | name name => exact feed_name_keeps env name hwants
  | keyword word => exact feed_keyword_keeps env word hwants
  | special sign =>
      exact feed_special_keeps hwants (fun h => hnewline (congrArg _ h)) fun h =>
        hcomma (congrArg _ h)
  | comment | endOfText => exact refuse_yields hwants

end Expression

namespace Statement

variable {n : Nat} {statement : Statement} {token : Token} {location : Location}

/-- Nothing has been read of the statement. -/
def IsFresh (statement : Statement) : Prop :=
  statement.stage = .begin ∧ statement.object = ""

/-- A word that is no instruction changes nothing. -/
theorem feed_instruction_yields (env : Environment) (word : Builtin) :
    Yields (feedInstruction env word : Reading n Statement Bool) statement
      fun taken q => taken = false → q = statement := by
  refine .get ?_
  cases word with
  | enable | disable => exact .after fun _ _ => .after fun _ _ => .pure nofun
  | startScript =>
      exact .after fun _ _ => .after fun _ _ => .after fun _ _ => .after fun _ _ =>
        .pure nofun
  | stopScript =>
      show Yields (if statement.stage ≠ .begin then _ else _ : Reading n Statement Bool) _ _
      split
      · exact .pure fun _ => rfl
      · exact .after fun _ _ => .after fun _ _ => .after fun _ _ => .after fun _ _ =>
          .pure nofun
  | _ => exact .pure fun _ => rfl

/-- Without an object in front, the expression that is to be shown keeps its first token. -/
theorem read_shown_keeps (env : Environment) (first : Option Token)
    (hobject : statement.object = "") :
    KeepsToken n (readShown env first location) statement := by
  refine .get ?_
  have hoffer : (offerObject env statement location : Reading n Expression Unit) = pure () := by
    simp [offerObject, hobject]
  rw [hoffer]
  show Yields (Reading.nested ({} : Expression) _ >>= _) statement _
  exact .after fun _ _ => .after fun _ _ => .after fun _ _ => .after fun _ _ =>
    .pure (Or.inl rfl)

theorem drop_reference_yields (extension : Extension) (hobject : statement.object = "") :
    Yields (dropReference extension location : Reading n Statement Unit) statement
      fun _ q => q.object = "" := by
  refine .get ?_
  split
  · exact .warn fun _ _ => rfl
  · exact .pure hobject

theorem feed_call_keeps (env : Environment) (code : Int) (instruction : Extension) :
    KeepsToken n (feedCall env code instruction location) statement := by
  refine .after fun _ _ => .after fun arguments _ => ?_
  cases arguments with
  | none => exact .pure (Or.inr rfl)
  | some found =>
      exact .after fun _ _ => .after fun _ _ => .after fun _ _ => .after fun _ _ =>
        .pure (Or.inl rfl)

theorem feed_extension?_yields (env : Environment) (word : Keyword)
    (hobject : statement.object = "") :
    Yields (feedExtension? env word location : Reading n Statement (Option Verdict)) statement
      fun found q => (∀ verdict, found = some verdict → verdict.Keeps) ∧
        (found = none → q = statement) := by
  have hsome : ∀ {verdict : Verdict} {q : Statement}, verdict.Keeps →
      (∀ found, some verdict = some found → found.Keeps) ∧ (some verdict = none → q = statement) :=
    fun hkeeps => ⟨fun _ heq => Option.some.inj heq ▸ hkeeps, nofun⟩
  cases word with
  | builtin word => exact .pure ⟨fun _ heq => (by cases heq), fun _ => rfl⟩
  | extension code =>
      simp only [feedExtension?]
      split
      · exact .map ((feed_call_keeps env code _).imp fun _ _ hkeeps => hsome hkeeps)
      · refine .bind (drop_reference_yields _ hobject) fun _ q hq => ?_
        exact .map ((read_shown_keeps env _ hq).imp fun _ _ hkeeps => hsome hkeeps)
      · exact .pure ⟨fun _ heq => (by cases heq), fun _ => rfl⟩

theorem feed_declaration_keeps (env : Environment) (word : Keyword) :
    KeepsToken n (feedDeclaration env word location) statement := by
  unfold feedDeclaration
  dsimp only
  split
  · exact .after fun _ _ => .after fun _ _ => .pure (Or.inr rfl)
  · exact .after fun _ _ => .pure (Or.inr rfl)

/-- Every word that may stand at the start of a statement is kept. -/
theorem feed_first_word?_yields (env : Environment) (word : Builtin) :
    Yields (feedFirstWord? env word location : Reading n Statement (Option Verdict)) statement
      fun found _ => ∀ verdict, found = some verdict → verdict.Keeps := by
  have hmore : ∀ verdict, some Verdict.more = some verdict → verdict.Keeps :=
    fun _ heq => Or.inl (Option.some.inj heq).symm
  cases word with
  | short | long | float =>
      exact .map ((feed_declaration_keeps env _).imp fun _ _ hkeeps _ heq =>
        Option.some.inj heq ▸ hkeeps)
  | setVariable => exact .map (.after fun _ _ => .pure hmore)
  | messageBox | leave => exact .after fun _ _ => .map (.after fun _ _ => .pure hmore)
  | elseBlock | endIf | beginScript =>
      exact .map (.after fun _ _ => .after fun _ _ => .pure hmore)
  | _ => exact .pure fun _ heq => by cases heq

theorem feed_plain_keyword_keeps (env : Environment) (word : Keyword) :
    KeepsToken n (feedPlainKeyword env word location) statement := by
  cases word with
  | extension code => exact .fail
  | builtin builtin =>
      refine .bind (feed_first_word?_yields env builtin) fun found _ hfound => ?_
      cases found with
      | some verdict => exact .pure (hfound verdict rfl)
      | none => exact .fail

theorem feed_other_keyword_keeps (env : Environment) (word : Keyword) (hfresh : statement.IsFresh) :
    KeepsToken n (feedOtherKeyword env word location) statement := by
  refine .bind (feed_extension?_yields env word hfresh.2) fun found q hq => ?_
  cases found with
  | some verdict => exact .pure (hq.1 verdict rfl)
  | none =>
      obtain rfl := hq.2 rfl
      refine .get ?_
      dsimp only
      split
      · exact read_shown_keeps env _ hfresh.2
      · rw [if_neg (by rw [hfresh.1]; rintro ⟨⟩)]
        exact feed_plain_keyword_keeps env word

theorem feed_first_keyword_keeps (env : Environment) (word : Keyword) (hfresh : statement.IsFresh) :
    KeepsToken n (feedFirstKeyword env word location) statement := by
  cases word with
  | extension code => exact feed_other_keyword_keeps env _ hfresh
  | builtin builtin =>
      refine .bind (feed_instruction_yields env builtin) fun taken q hq => ?_
      cases taken with
      | true => exact .pure (Or.inl rfl)
      | false =>
          obtain rfl := hq rfl
          exact feed_other_keyword_keeps env _ hfresh

theorem feed_first_name_keeps (env : Environment) (name : String) (hfresh : statement.IsFresh) :
    KeepsToken n (feedFirstName env name location) statement := by
  refine .look fun locals => ?_
  dsimp only
  split
  · exact .modify (.after fun _ _ => .pure (Or.inl rfl))
  · refine .get ?_
    split
    · exact read_shown_keeps env _ hfresh.2
    · exact .fail

theorem feed_special_keeps (env : Environment) (sign : Special) (hfresh : statement.IsFresh) :
    KeepsToken n (feedSpecial env sign location) statement := by
  refine .get ?_
  rw [hfresh.1]
  cases sign with
  | newline => exact .pure (Or.inr rfl)
  | opening | minus | plus =>
      dsimp only
      split
      · exact read_shown_keeps env _ hfresh.2
      · exact .fail
  | _ => exact .fail

/-- A statement of which nothing has been read keeps every token. -/
theorem feed_keeps (env : Environment) (hfresh : statement.IsFresh) :
    KeepsToken n (feed env token location) statement := by
  cases token with
  | int value | float value =>
      refine .get ?_
      rw [hfresh.1]
      dsimp only
      split
      · exact read_shown_keeps env _ hfresh.2
      · exact .fail
  | name name =>
      refine .get ?_
      rw [hfresh.1]
      exact feed_first_name_keeps env name hfresh
  | keyword word =>
      refine .get ?_
      rw [hfresh.1]
      exact feed_first_keyword_keeps env word hfresh
  | special sign => exact feed_special_keeps env sign hfresh
  | comment | endOfText => exact .fail

end Statement

namespace Reading

/-- Every scan comes to an end: a turn after which the reader wants more leaves less to read, no
scan leaves more to read than it found, and as many turns as there is to read suffice. A reader
that is started on a token that has been delivered does the same as a scan of the text with the
token put back, and takes the token. Texts are compiled by scans whose number of turns is bounded
by the length of the text. -/
theorem scans_terminate (env : Environment) :
    (∀ (n : Nat) (σ : Type) (mayEnd : σ → Bool)
        (feed : (m : Nat) → m < n → Token → Location → Reading m σ Verdict)
        (p : σ) (s : Session) (h : s.unread ≤ n),
      (∀ q t, turn env mayEnd feed p s h = .again q t → t.unread < s.unread) ∧
      (scanFrom env mayEnd feed p s h).session.unread ≤ s.unread ∧
      runTurns env mayEnd feed (s.unread + 1) p s h = some (scanFrom env mayEnd feed p s h)) ∧
    (∀ (s : Session) (token : Token) (location : Location),
      token ≠ .endOfText → (∀ text, token ≠ .comment text) →
      (∀ word, token = .keyword word →
        StartsOn (fun _ => Declaration.readFrom env word location)
          (fun _ => Declaration.scan env) .begin s token location) ∧
      (∀ statement : Statement,
        StartsOn (fun _ => starting (Statement.feed env) (Statement.scan env)
          (some (token, location))) (fun _ => Statement.scan env) statement.reset s token
          location) ∧
      (∀ e : Expression, e.Wants → token ≠ .special .newline →
        (token = .special .comma → e.first = true) →
        StartsOn (fun m => starting (Expression.feed env (Expression.scan env m))
          (Expression.scan env m) (some (token, location))) (Expression.scan env) e s token
          location)) ∧
    (∀ (source : String) (log : Log) (locals : Locals),
      (∃ result, runTurns env ScriptFile.mayEnd (fun _ _ => ScriptFile.feed env)
          (2 * source.length + 1) {} { scanner := .ofText source, log } (Nat.le_refl _) =
            some result ∧
        compileScript env source log = .ofResult result fun file session =>
          { name := file.name, literals := session.literals, locals := session.locals,
            code := file.code }) ∧
      (∃ result, runTurns env (!·.ends) (fun _ _ => Body.feed env) (2 * source.length + 3)
          { ends := false } { scanner := .ofText (source ++ "\n"), log, locals }
          (Nat.le_refl _) = some result ∧
        compileConsole env source log locals = .ofResult result fun body session =>
          { literals := session.literals, locals := session.locals, code := body.code }) ∧
      (∃ result, runTurns env (fun _ => true) (fun _ _ => Outline.feed env)
          (2 * source.length + 1) () { scanner := .ofText source, log } (Nat.le_refl _) =
            some result ∧
        scanLocals env source log = .ofResult result fun _ session => session.locals)) := by
  refine ⟨fun n σ mayEnd feed p s h => ⟨fun q t hturn => unread_lt_of_turn hturn,
    (precedes_scan_from env mayEnd feed p s h).unread, run_turns_eq (Nat.lt_succ_self _)⟩, ?_, ?_⟩
  · intro s token location hend hcomment
    refine ⟨fun word hword => ?_, fun statement => ?_, fun e hwants hnewline hcomma => ?_⟩
    · subst hword
      exact starts_on_of_keeps (fun _ => rfl) hend hcomment fun _ hok =>
        (Declaration.feed_begin_keeps env _ location).of_ok hok
    · exact starts_on_of_keeps (fun _ => rfl) hend hcomment fun _ hok =>
        (Statement.feed_keeps env ⟨rfl, rfl⟩).of_ok hok
    · exact starts_on_of_keeps (Expression.scan.eq_def env) hend hcomment fun _ hok =>
        (Expression.feed_keeps env hwants hnewline hcomma).of_ok hok
  · intro source log locals
    have hsource : Scanner.unread (.ofText source) = 2 * source.length := by
      simp [Scanner.unread, Scanner.ofText, String.length_toList]
    have hinput : Scanner.unread (.ofText (source ++ "\n")) = 2 * source.length + 2 := by
      simp [Scanner.unread, Scanner.ofText, String.length_toList]
      omega
    exact ⟨⟨_, run_turns_eq (Nat.lt_succ_of_le (Nat.le_of_eq hsource)), rfl⟩,
      ⟨_, run_turns_eq (Nat.lt_succ_of_le (Nat.le_of_eq hinput)), rfl⟩,
      ⟨_, run_turns_eq (Nat.lt_succ_of_le (Nat.le_of_eq hsource)), rfl⟩⟩

/-- An expression that is started on a parenthesis, with the rest of a line behind it. -/
theorem parenthesis_starts_on :
    Expression.Wants {} ∧ StartsOn (fun m => starting
      (Expression.feed {} (Expression.scan {} m)) (Expression.scan {} m)
        (some (.special .opening, ⟨0, 1, "("⟩))) (Expression.scan {}) {}
      { scanner := .ofText "1 + 2) * 3\n" } (.special .opening) ⟨0, 1, "("⟩ :=
  ⟨⟨rfl, rfl⟩,
    ((scans_terminate {}).2.1 _ (.special .opening) _ nofun nofun).2.2 {} ⟨rfl, rfl⟩ nofun nofun⟩

end Reading

end QuestScript
