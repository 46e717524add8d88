import QuestScript.Compile
import QuestScript.Proofs.Custody.Body
import QuestScript.Proofs.StackSafety

/-!
# The buttons of message boxes

The only defect that a script can bring about is a message box with too many buttons. Their number
has to fit a field of eight bits, so that a message box with 256 buttons cannot be expressed.

A statement takes its tokens one by one, and the number of buttons that it keeps is that of the
texts it has taken behind the text of the message box (`Statement.Listed`). A button that spells a
keyword is a text like others, but not behind a text with a line end in it (`button_reads_keyword`).
-/

namespace QuestScript

variable {n : Nat} {env : Environment}

open Reading (MeetsOnly)
open Reading.MeetsOnly (Answers)
open Custody (ofDefects)

/-- Fewer defects may be met. -/
theorem Reading.Admits.mono {σ α : Type} {defects defects' : Defect → Prop} {r : Result σ α}
    {post : α → σ → Prop} (hr : Admits defects post r)
    (h : ∀ defect, defects defect → defects' defect) : Admits defects' post r := by
  rcases r with ⟨(_ | _ | defect) | a, q, t⟩
  · trivial
  · trivial
  · exact h defect hr
  · exact hr

/-! ### Statements -/

namespace Statement

variable {statement q : Statement} {token : Token} {location : Location}

/-- The defect is that of a message box with too many buttons, at the end of its line. -/
structure Overfull (statement : Statement) (token : Token) (defect : Defect) : Prop where
  defect : defect = .tooManyButtons
  token : token = .special .newline
  texts : ∃ count, statement.texts? = some count ∧ 256 < count

/-- A token brings about no defect but that of a message box with too many buttons. -/
theorem feed_meets_only (hhost : env.extensions.Regular) (token : Token) (location : Location)
    (hobject : statement.stage = .begin → statement.object = "") :
    MeetsOnly (Overfull statement token) (feed env token location : Reading n Statement Verdict)
      statement (Answers (Overfull statement token)
        (Follows (ofDefects env (Overfull statement token) (Or.inl hhost)) statement token)
        fun _ => True) := by
  refine (feed_custody (fun count hcount hlt htoken => ?_) ⟨?_, ?_, hobject⟩).meets_only_answers
  · exact ⟨rfl, htoken, count, hcount, hlt⟩
  · exact Custody.codes_of_defects
  · exact fun _ _ _ => trivial

end Statement

/-! ### The tokens that a reader takes -/

namespace Reading

variable {σ : Type}

/-- In some turns of a scan the reader takes these tokens, and wants more. -/
inductive Takes (env : Environment) (feed : (m : Nat) → Token → Location → Reading m σ Verdict) :
    σ → Session → List Token → σ → Session → Prop where
  | nil (p : σ) (s : Session) : Takes env feed p s [] p s
  | pass {p q : σ} {s s' t : Session} {item : Item} {tokens : List Token}
      (hpull : s.pull env = (item, s')) (hpass : item.IsPassed)
      (hrest : Takes env feed p s' tokens q t) : Takes env feed p s tokens q t
  | take {p q r : σ} {s s' t u : Session} {token : Token} {location : Location}
      {tolerantAfter : Option Bool} {tokens : List Token}
      (hpull : s.pull env = (.token token location tolerantAfter, s'))
      (hend : token ≠ .endOfText) (hcomment : ∀ text, token ≠ .comment text)
      (hfeed : runOn (fun m => feed m token location) p s' = ⟨.ok .more, q, t⟩)
      (hrest : Takes env feed q (t.restoreNames tolerantAfter) tokens r u) :
      Takes env feed p s (token :: tokens) r u

/-- Behind the tokens that it has taken the reader, in the state `q`, is offered one more, behind
which the session is `u`. -/
structure Offers (env : Environment) (feed : (m : Nat) → Token → Location → Reading m σ Verdict)
    (p : σ) (s : Session) (tokens : List Token) (token : Token) (location : Location) (q : σ)
    (u : Session) : Prop where
  pull : ∃ t tolerantAfter, Takes env feed p s tokens q t ∧
    t.pull env = (.token token location tolerantAfter, u)
  ne_endOfText : token ≠ .endOfText
  ne_comment : ∀ text, token ≠ .comment text

variable {feed : (m : Nat) → Token → Location → Reading m σ Verdict} {p q : σ} {s t : Session}
  {tokens : List Token} {token : Token} {location : Location}

/-- What each token keeps, as the tokens are taken, is kept by all of them. -/
theorem Takes.keeps {inv : List Token → σ → Prop}
    (hstep : ∀ taken p token location s q t, inv taken p →
      runOn (fun m => feed m token location) p s = ⟨.ok .more, q, t⟩ → inv (taken ++ [token]) q)
    (h : Takes env feed p s tokens q t) {taken : List Token} (hp : inv taken p) :
    inv (taken ++ tokens) q := by
  induction h generalizing taken with
  | nil => rwa [List.append_nil]
  | pass _ _ _ ih => exact ih hp
  | take _ _ _ hfeed _ ih =>
      have hrest := ih (hstep _ _ _ _ _ _ _ hp hfeed)
      rwa [List.append_assoc, List.singleton_append] at hrest

theorem Offers.keeps (inv : List Token → σ → Prop)
    (hstep : ∀ taken p token location s q t, inv taken p →
      runOn (fun m => feed m token location) p s = ⟨.ok .more, q, t⟩ → inv (taken ++ [token]) q)
    (h : Offers env feed p s tokens token location q t) (taken : List Token) (hp : inv taken p) :
    inv (taken ++ tokens) q := by
  obtain ⟨_, _, htakes, -⟩ := h.pull
  exact htakes.keeps hstep hp

theorem Offers.of_pass {item : Item} {s' : Session} (hpull : s.pull env = (item, s'))
    (hpass : item.IsPassed) (h : Offers env feed p s' tokens token location q t) :
    Offers env feed p s tokens token location q t := by
  obtain ⟨u, tolerantAfter, htakes, hlast⟩ := h.pull
  exact ⟨⟨u, tolerantAfter, .pass hpull hpass htakes, hlast⟩, h.ne_endOfText, h.ne_comment⟩

theorem Offers.of_take {token' : Token} {location' : Location} {tolerantAfter : Option Bool}
    {s' u : Session} {r : σ} (hpull : s.pull env = (.token token' location' tolerantAfter, s'))
    (hend : token' ≠ .endOfText) (hcomment : ∀ text, token' ≠ .comment text)
    (hfeed : runOn (fun m => feed m token' location') p s' = ⟨.ok .more, r, u⟩)
    (h : Offers env feed r (u.restoreNames tolerantAfter) tokens token location q t) :
    Offers env feed p s (token' :: tokens) token location q t := by
  obtain ⟨v, tolerantAfter, htakes, hlast⟩ := h.pull
  exact ⟨⟨v, tolerantAfter, .take hpull hend hcomment hfeed htakes, hlast⟩, h.ne_endOfText,
    h.ne_comment⟩

/-- Tokens that are taken are not given back. -/
theorem Takes.precedes (h : Takes env feed p s tokens q t) : s.Precedes t := by
  induction h with
  | nil => exact .refl _
  | @pass p q s s' t item tokens hpull hpass hrest ih =>
      have hs := s.precedes_pull env
      rw [hpull] at hs
      exact hs.trans ih
  | @take p q r s s' t u token location tolerantAfter tokens hpull hend hcomment hfeed hrest ih =>
      have hs := s.precedes_pull env
      rw [hpull] at hs
      have ht := (feed s'.unread token location).precedes_run p s' (Nat.le_refl _)
      rw [show (feed s'.unread token location).run p s' _ = _ from hfeed] at ht
      exact (hs.trans ht).trans ((t.precedes_restore_names _).trans ih)

theorem Takes.trans {r : σ} {u : Session} {tokens' : List Token}
    (h : Takes env feed p s tokens q t) (h' : Takes env feed q t tokens' r u) :
    Takes env feed p s (tokens ++ tokens') r u := by
  induction h with
  | nil => exact h'
  | pass hpull hpass _ ih => exact .pass hpull hpass (ih h')
  | take hpull hend hcomment hfeed _ ih => exact .take hpull hend hcomment hfeed (ih h')

theorem Takes.scans {mayEnd : σ → Bool} {r : Result σ Unit}
    (h : Takes env feed p s tokens q t) (hrest : Scans env mayEnd feed q t r) :
    Scans env mayEnd feed p s r := by
  induction h with
  | nil => exact hrest
  | pass hpull hpass _ ih => exact .pass hpull hpass (ih hrest)
  | take hpull hend hcomment hfeed _ ih => exact .more hpull hend hcomment hfeed (ih hrest)

/-- There is less to read behind the token that is offered. -/
theorem Offers.unread_lt (h : Offers env feed p s tokens token location q t) :
    t.unread < s.unread := by
  obtain ⟨u, tolerantAfter, htakes, hlast⟩ := h.pull
  have hlt := u.unread_pull_lt env
  rw [hlast] at hlt
  exact Nat.lt_of_lt_of_le (hlt nofun) htakes.precedes.unread

/-- The answer of the reader stops the scan for this reason. -/
def Answer.StopsFor (reason : Abort) (r : Result σ Verdict) : Prop :=
  r.outcome = .error reason ∨ ∃ back, r.outcome = .ok (.giveUp back reason)

theorem Answer.stops_for_of_of_answer {reason : Abort} {tolerantAfter : Option Bool}
    {answer : Result σ Verdict} {r : Result σ Unit}
    (h : Turn.ofAnswer location tolerantAfter answer = .last r)
    (hstop : r.outcome = .error reason) : StopsFor reason answer := by
  unfold Turn.ofAnswer at h
  rcases answer with ⟨reason | verdict, q, t⟩
  · cases h
    cases hstop
    exact Or.inl rfl
  · cases verdict with
    | done | handBack back =>
        cases h
        cases hstop
    | giveUp back reason =>
        cases h
        cases hstop
        exact Or.inr ⟨back, rfl⟩
    | more => cases h

/-- Where a scan can stop: at the end of the text, at a part of it that forms no token, or at a
token that is offered to its reader. -/
inductive StopsFor (env : Environment) (feed : (m : Nat) → Token → Location → Reading m σ Verdict)
    (p : σ) (s : Session) : Abort → Prop where
  | ended {q : σ} {t : Session} {tokens : List Token} (htakes : Takes env feed p s tokens q t)
      (hitem : (t.pull env).1.IsEnd) : StopsFor env feed p s .endOfFile
  | malformed {q : σ} {t : Session} {tokens : List Token} {location : Location}
      (htakes : Takes env feed p s tokens q t) (hitem : (t.pull env).1 = .malformed location) :
      StopsFor env feed p s .source
  | offer {q : σ} {t : Session} {tokens : List Token} {token : Token} {location : Location}
      {reason : Abort} (hoffers : Offers env feed p s tokens token location q t)
      (hanswer : Answer.StopsFor reason (runOn (fun m => feed m token location) q t)) :
      StopsFor env feed p s reason

theorem Scans.stops_for {mayEnd : σ → Bool} {reason : Abort} {r : Result σ Unit}
    (h : Scans env mayEnd feed p s r) (hstop : r.outcome = .error reason) :
    StopsFor env feed p s reason := by
  induction h with
  | @ended p s s' item hpull hend =>
      unfold finish at hstop
      split at hstop
      · cases hstop
      · cases hstop
        exact .ended (.nil p s) (by rwa [hpull])
  | @malformed p s s' location hpull =>
      cases hstop
      exact .malformed (.nil p s) (by rw [hpull])
  | pass hpull hpass _ ih =>
      cases ih hstop with
      | ended htakes hitem => exact .ended (.pass hpull hpass htakes) hitem
      | malformed htakes hitem => exact .malformed (.pass hpull hpass htakes) hitem
      | offer hoffers hanswer => exact .offer (hoffers.of_pass hpull hpass) hanswer
  | last hpull hend hcomment hanswer =>
      exact .offer ⟨⟨_, _, .nil _ _, hpull⟩, hend, hcomment⟩
        (Answer.stops_for_of_of_answer hanswer hstop)
  | more hpull hend hcomment hfeed _ ih =>
      cases ih hstop with
      | ended htakes hitem => exact .ended (.take hpull hend hcomment hfeed htakes) hitem
      | malformed htakes hitem => exact .malformed (.take hpull hend hcomment hfeed htakes) hitem
      | offer hoffers hanswer => exact .offer (hoffers.of_take hpull hend hcomment hfeed) hanswer

/-- A scan that stops for a defect does so at a token that is offered to its reader. -/
theorem exists_offers_of_internal {mayEnd : σ → Bool} {defect : Defect}
    (feed : (m : Nat) → Token → Location → Reading m σ Verdict) (h : s.unread ≤ n)
    (hstop : (scanFrom env mayEnd (fun m (_ : m < n) => feed m) p s h).outcome =
      .error (.internal defect)) :
    ∃ tokens token location q t, Offers env feed p s tokens token location q t ∧
      Answer.StopsFor (.internal defect) (runOn (fun m => feed m token location) q t) := by
  cases (scans_scan_from h).stops_for hstop with
  | offer hoffers hanswer => exact ⟨_, _, _, _, _, hoffers, hanswer⟩

/-- A scan goes on as its reader answers the token that it is offered. -/
theorem Scans.of_offers {mayEnd : σ → Bool} {r : Result σ Unit}
    (hscan : Scans env mayEnd feed p s r)
    (h : Offers env feed p s tokens token location q t) :
    ∃ tolerantAfter,
      Turn.ofAnswer location tolerantAfter (runOn (fun m => feed m token location) q t) = .last r ∨
        ∃ q' t', runOn (fun m => feed m token location) q t = ⟨.ok .more, q', t'⟩ ∧
          Scans env mayEnd feed q' (t'.restoreNames tolerantAfter) r := by
  obtain ⟨u, tolerantAfter, htakes, hlast⟩ := h.pull
  have hend := h.ne_endOfText
  have hcomment := h.ne_comment
  clear h
  induction htakes with
  | nil p s => exact ⟨tolerantAfter, hscan.of_token hlast hend hcomment⟩
  | pass hpull hpass _ ih => exact ih (hscan.of_pass hpull hpass) hlast
  | take hpull hend' hcomment' hfeed _ ih =>
      obtain hanswer | ⟨q, t, hfeed', hrest⟩ := hscan.of_token hpull hend' hcomment'
      · rw [hfeed] at hanswer
        cases hanswer
      · cases hfeed.symm.trans hfeed'
        exact ih hrest hlast

/-- What a scan does with a token that it offers its reader stays in the log. -/
theorem Offers.precedes_log {mayEnd : σ → Bool} {r : Result σ Unit}
    (h : Offers env feed p s tokens token location q t) (hscan : Scans env mayEnd feed p s r) :
    (runOn (fun m => feed m token location) q t).session.log.Precedes r.session.log := by
  obtain ⟨tolerantAfter, hanswer | ⟨q', t', hfeed, hrest⟩⟩ := hscan.of_offers h
  · rw [Turn.log_of_of_answer hanswer]
    exact .refl _
  · rw [hfeed]
    exact (t'.precedes_restore_names tolerantAfter).log.trans hrest.precedes_log

/-- A reader that admits only some defects stops for no others. -/
theorem Answer.StopsFor.among {defects : Defect → Prop} {defect : Defect} {r : Result σ Verdict}
    {inv done : σ → Prop} (h : StopsFor (.internal defect) r)
    (hr : Admits defects (MeetsOnly.Answers defects inv done) r) : defects defect := by
  rcases r with ⟨outcome, q, t⟩
  obtain h | ⟨back, h⟩ := h
  · obtain rfl : outcome = _ := h
    exact hr
  · obtain rfl : outcome = _ := h
    exact hr.1

end Reading

open Reading (Offers runOn)

/-! ### Statements with buttons -/

/-- Where a statement starts: the token that it starts on, the session behind this token, and
whether an expression may be a statement there. -/
structure Spot where
  allowExpression : Bool
  token : Token
  location : Location
  session : Session

namespace Spot

/-- Feeds the statement that starts here its first token. -/
abbrev feedFirst (env : Environment) (spot : Spot) : Result Statement Verdict :=
  (Statement.feed env spot.token spot.location).run { allowExpression := spot.allowExpression }
    (spot.session.started spot.token) (spot.session.unread_started_le spot.token)

/-- Reads the statement that starts here. -/
abbrev read (env : Environment) (spot : Spot) : Result Statement Unit :=
  runOn (fun _ => Reading.starting (Statement.feed env) (Statement.scan env)
    (some (spot.token, spot.location))) { allowExpression := spot.allowExpression } spot.session

/-- Compiles the line that starts here. -/
abbrev compileLine (env : Environment) (spot : Spot) : Result Statement (Bool × Code) :=
  runOn (fun _ => Statement.compile env (some (spot.token, spot.location)))
    { allowExpression := spot.allowExpression } spot.session

/-- The statement that starts here takes these tokens and is then at the end of its line. -/
def HasTokens (env : Environment) (spot : Spot) (tokens : List Token) : Prop :=
  ∃ q t rest location r u, spot.feedFirst env = ⟨.ok .more, q, t⟩ ∧
    Offers env (fun _ => Statement.feed env) q t rest (.special .newline) location r u ∧
    tokens = spot.token :: rest

/-- The statement that starts here is a message box that lists at least this many buttons: behind
its keyword stand its text and the texts of the buttons. -/
def ListsButtons (env : Environment) (spot : Spot) (count : Nat) : Prop :=
  ∃ front rest, spot.HasTokens env (front ++ .keyword (.builtin .messageBox) :: rest) ∧
    count < rest.countP (Statement.isText env)

/-- What is read goes on as the statement answers its first token. -/
theorem read_of_error {spot : Spot} {reason : Abort} {q : Statement} {t : Session}
    (h : spot.feedFirst env = ⟨.error reason, q, t⟩) : spot.read env = ⟨.error reason, q, t⟩ := by
  rw [read, runOn, Reading.run_starting rfl (spot.session.unread_started_le spot.token),
    Reading.run_bind_of_error h]

theorem read_of_ok {spot : Spot} {verdict : Verdict} {q : Statement} {t : Session}
    (h : spot.feedFirst env = ⟨.ok verdict, q, t⟩) :
    ∃ ht : t.unread ≤ spot.session.unread, spot.read env =
      (Reading.follow (Statement.scan env) verdict :
        Reading spot.session.unread Statement Unit).run q t ht := by
  have ht := (Statement.feed env spot.token spot.location).unread_run_le
    { allowExpression := spot.allowExpression } (spot.session.started spot.token)
    (spot.session.unread_started_le spot.token)
  rw [show (Statement.feed env spot.token spot.location).run _ _ _ = _ from h] at ht
  have hle := Nat.le_trans ht (spot.session.unread_started_le spot.token)
  refine ⟨hle, ?_⟩
  rw [read, runOn, Reading.run_starting rfl (spot.session.unread_started_le spot.token),
    Reading.run_bind_of_ok h hle]

end Spot

namespace Statement

variable {statement q : Statement} {token : Token} {location : Location}

/-- An object stands only in front of something, and the texts that a message box has taken stand
behind its keyword. -/
structure Listed (env : Environment) (tokens : List Token) (statement : Statement) : Prop where
  object : statement.stage = .begin → statement.object = ""
  texts : ∀ count, statement.texts? = some count →
    ∃ front rest, tokens = front ++ .keyword (.builtin .messageBox) :: rest ∧
      count = rest.countP (isText env)

theorem Listed.follows {C : Custody env} {tokens : List Token} (h : statement.Listed env tokens)
    (hfollows : Follows C statement token q) : q.Listed env (tokens ++ [token]) := by
  refine ⟨hfollows.object, fun count hcount => ?_⟩
  obtain ⟨rfl, rfl⟩ | ⟨earlier, hearlier, rfl⟩ := hfollows.texts count hcount
  · exact ⟨tokens, [], rfl, rfl⟩
  · obtain ⟨front, rest, rfl, rfl⟩ := h.texts earlier hearlier
    refine ⟨front, rest ++ [token], by simp, ?_⟩
    rw [List.countP_append, List.countP_singleton]

/-- Nothing has been taken at the start. -/
theorem listed_start {allowExpression : Bool} : Listed env [] { allowExpression } where
  object _ := rfl
  texts count hcount := by cases hcount

/-- At the start of a statement no token brings about a defect. -/
theorem not_overfull_start {allowExpression : Bool} {defect : Defect} :
    ¬Overfull { allowExpression } token defect := by
  rintro ⟨-, -, count, hcount, -⟩
  cases hcount

variable (hhost : env.extensions.Regular)

include hhost

theorem listed_of_feed {tokens : List Token} {s t : Session} {hs : s.unread ≤ n}
    (h : statement.Listed env tokens)
    (hfeed : (feed env token location).run statement s hs = ⟨.ok .more, q, t⟩) :
    q.Listed env (tokens ++ [token]) := by
  have hadmits := feed_meets_only hhost token location h.object s hs
  rw [hfeed] at hadmits
  exact h.follows hadmits

/-- If a statement stops for a defect behind its first token, it is a message box with too many
buttons. -/
theorem scan_admits {spot : Spot} {t : Session} (h : t.unread ≤ n)
    (hfeed : spot.feedFirst env = ⟨.ok .more, q, t⟩) :
    Reading.Admits (fun defect => defect = .tooManyButtons ∧ spot.ListsButtons env 256)
      (fun _ _ => True) ((scan env : Reading n Statement Unit).run q t h) := by
  rcases hrun : (scan env : Reading n Statement Unit).run q t h with ⟨outcome, r, u⟩
  rcases outcome with (_ | _ | defect) | _
  · trivial
  · trivial
  · obtain ⟨tokens, token, location, r, u, hoffers, hanswer⟩ :=
      Reading.exists_offers_of_internal (fun _ => feed env) h (congrArg Result.outcome hrun)
    have hlisted : r.Listed env ([spot.token] ++ tokens) := by
      refine hoffers.keeps (Listed env) ?_ _ (listed_of_feed hhost listed_start hfeed)
      intro _ _ _ _ _ _ _ hp hfeed
      exact listed_of_feed hhost hp hfeed
    obtain ⟨rfl, rfl, count, hcount, hlt⟩ :=
      hanswer.among (feed_meets_only hhost token location hlisted.object u (Nat.le_refl _))
    obtain ⟨front, rest, htokens, rfl⟩ := hlisted.texts count hcount
    exact ⟨rfl, front, rest, ⟨q, t, tokens, location, r, u, hfeed, hoffers, htokens.symm⟩, hlt⟩
  · trivial

/-- A statement that stops for a defect is a message box with too many buttons. -/
theorem compile_admits (spot : Spot) :
    Reading.Admits (fun defect => defect = .tooManyButtons ∧ spot.ListsButtons env 256)
      (fun _ _ => True) (spot.compileLine env) := by
  let start : Statement := { allowExpression := spot.allowExpression }
  have hstarting : Reading.Admits
      (fun defect => defect = .tooManyButtons ∧ spot.ListsButtons env 256) (fun _ _ => True)
      (spot.read env) := by
    have hadmits : Reading.Admits (Overfull start spot.token) _ (spot.feedFirst env) :=
      feed_meets_only hhost spot.token spot.location (fun _ => rfl) _ _
    rcases hrun : spot.feedFirst env with ⟨outcome, q, t⟩
    rw [hrun] at hadmits
    -- The first token is not one button too many, since there are none yet.
    rcases outcome with reason | verdict
    · rw [Spot.read_of_error hrun]
      cases reason with
      | source | endOfFile => trivial
      | internal defect => exact absurd hadmits not_overfull_start
    · obtain ⟨hle, hread⟩ := Spot.read_of_ok hrun
      rw [hread]
      cases verdict with
      | more => exact scan_admits hhost hle hrun
      | done | handBack back => trivial
      | giveUp back reason =>
          cases reason with
          | source | endOfFile => trivial
          | internal defect => exact absurd hadmits.1 not_overfull_start
  rw [Spot.compileLine, runOn, compile, Reading.run_modify_bind]
  refine MeetsOnly.admits_bind (p := start)
    (MeetsOnly.admits_recover_line (fun _ => True) hstarting) fun compiled q _ => .get ?_
  split
  · exact .set (.pure trivial)
  · exact .set (.pure trivial)

end Statement

/-- The defect is that of a message box with too many buttons, at one of the given spots. -/
def BlamesButtons (env : Environment) (reads : Spot → Prop) (defect : Defect) : Prop :=
  defect = .tooManyButtons ∧ ∃ spot, reads spot ∧ spot.ListsButtons env 256

/-- The answer to a token, if it has no other defect. -/
abbrev BlamesOnlyButtons {σ : Type} (env : Environment) (reads : Spot → Prop)
    (r : Result σ Verdict) : Prop :=
  Reading.Admits (BlamesButtons env reads)
    (MeetsOnly.Answers (BlamesButtons env reads) (fun _ => True) fun _ => True) r

/-- An answer that is kept in a custody of nothing but the defects. -/
theorem Custody.Keeps.blames_only {σ : Type} {reads : Spot → Prop}
    {hhost : env.extensions.Regular ∨ ∀ defect, BlamesButtons env reads defect}
    {x : Reading n σ Verdict} {p : σ} {inv done : σ → Prop}
    (hx : (ofDefects env (BlamesButtons env reads) hhost).Keeps x p true
      ((ofDefects env (BlamesButtons env reads) hhost).Answers inv done))
    (s : Session) (hs : s.unread ≤ n) : BlamesOnlyButtons env reads (x.run p s hs) := by
  refine hx.meets_only_answers.imp (fun verdict q hverdict => ?_) s hs
  cases verdict with
  | more | done | handBack => trivial
  | giveUp => exact hverdict

/-! ### Blocks -/

namespace Block

variable {block : Block} {token : Token} {location : Location} {defects : Defect → Prop}

/-- Every block is in order where only the defects count. -/
theorem in_order_of_defects (hhost : env.extensions.Regular) :
    block.InOrder (ofDefects env defects (Or.inl hhost)) :=
  ⟨Custody.codes_of_defects, Custody.codes_of_defects,
    fun _ _ => ⟨fun _ _ => Custody.codes_of_defects, Custody.codes_of_defects⟩,
    Custody.codes_of_defects⟩

/-- In a body a line starts at this token. -/
def Stage.startsLine : Stage → Token → Bool
  | _, .special .newline => false
  | .ifBody, .keyword (.builtin word) | .elseBody, .keyword (.builtin word) =>
    word ∉ [.endIf, .elseIf, .elseBlock, .ifBlock, .whileBlock]
  | .whileBody, .keyword (.builtin word) => word ∉ [.endWhile, .ifBlock, .whileBlock]
  | .ifBody, _ | .elseBody, _ | .whileBody, _ => true
  | _, _ => false

/-- The block is at a line of its body. -/
def Stage.isBody : Stage → Bool
  | .ifBody | .elseBody | .whileBody => true
  | _ => false

/-- A block in this state reads a statement at the spot, itself or in a block inside it. -/
inductive Reads (env : Environment) : Block → Session → Spot → Prop where
  | line {p q : Block} {s t : Session} {tokens : List Token} {token : Token} {location : Location}
      (hoffers : Offers env (fun m => feed env (scan env m)) p s tokens token location q t)
      (hline : q.stage.startsLine token = true) : Reads env p s ⟨false, token, location, t⟩
  | nested {p q inner : Block} {s t u : Session} {tokens : List Token} {word : Builtin}
      {location : Location} {spot : Spot}
      (hoffers : Offers env (fun m => feed env (scan env m)) p s tokens (.keyword (.builtin word))
        location q t)
      (hbody : q.stage.isBody = true) (hword : word = .ifBlock ∨ word = .whileBlock)
      (hopening : runOn (fun _ => opening env word location none) {} t = ⟨.ok (), inner, u⟩)
      (hinner : Reads env inner u spot) : Reads env p s spot

section Feed

variable {p q : Block} {s t : Session} {tokens : List Token} (hhost : env.extensions.Regular)

include hhost

theorem read_line_admits
    (hoffers : Offers env (fun m => feed env (scan env m)) p s tokens token location q t)
    (hline : q.stage.startsLine token = true) :
    BlamesOnlyButtons env (Reads env p s) (runOn (fun _ => readLine env token location) q t) := by
  have hcompile := Statement.compile_admits hhost ⟨false, token, location, t⟩
  refine MeetsOnly.admits_nested (hcompile.mono fun defect hdefect => ?_) fun _ _ _ => ?_
  · exact ⟨hdefect.1, _, .line hoffers hline, hdefect.2⟩
  · exact .modify (.pure trivial)

/-- A block that stops for a defect behind its opening. -/
theorem open_admits {word : Builtin} {first : Option (Token × Location)}
    (hinner : ∀ inner u (h : u.unread ≤ t.unread),
      runOn (fun _ => opening env word location first) {} t = ⟨.ok (), inner, u⟩ →
      Reading.Admits defects (fun _ _ => True) ((scan env t.unread).run inner u h)) :
    Reading.Admits defects (fun _ _ => True)
      ((opening env word location first >>= fun _ => scan env t.unread).run {} t
        (Nat.le_refl _)) := by
  have hopening : Reading.Admits (fun _ => False) (fun _ _ => True)
      (runOn (fun _ => opening env word location first) {} t) :=
    (opening_custody (C := ofDefects env _ (Or.inl hhost)) word first in_order_fresh).meets_only.imp
      (fun _ _ _ => trivial) t (Nat.le_refl _)
  have hle := (opening (n := t.unread) env word location first).unread_run_le {} t (Nat.le_refl _)
  rcases hrun : (opening (n := t.unread) env word location first).run {} t (Nat.le_refl _) with
    ⟨outcome, inner, u⟩
  rw [runOn, hrun] at hopening
  rw [hrun] at hle
  rcases outcome with reason | _
  · rw [Reading.run_bind_of_error hrun]
    cases reason with
    | source | endOfFile => trivial
    | internal defect => exact hopening.elim
  · rw [Reading.run_bind_of_ok hrun hle]
    exact hinner inner u hle hrun

variable (hnested : ∀ inner u (h : u.unread ≤ t.unread),
  Reading.Admits (BlamesButtons env (Reads env inner u)) (fun _ _ => True)
    ((scan env t.unread).run inner u h))

include hnested

theorem read_nested_admits {word : Builtin}
    (hoffers : Offers env (fun m => feed env (scan env m)) p s tokens (.keyword (.builtin word))
      location q t)
    (hbody : q.stage.isBody = true) (hword : word = .ifBlock ∨ word = .whileBlock) :
    BlamesOnlyButtons env (Reads env p s)
      (runOn (fun m => readNested env (scan env m) word location) q t) := by
  refine MeetsOnly.admits_nested
    (open_admits hhost fun inner u h hopening => ?_) fun _ _ _ => .modify (.pure trivial)
  refine (hnested inner u h).mono ?_
  rintro defect ⟨rfl, spot, hreads, hlists⟩
  exact ⟨rfl, spot, .nested hoffers hbody hword hopening hreads, hlists⟩

theorem feed_arm_keyword_admits {word : Keyword}
    (hoffers : Offers env (fun m => feed env (scan env m)) p s tokens (.keyword word) location q t)
    (hstage : q.stage = .ifBody ∨ q.stage = .elseBody) :
    BlamesOnlyButtons env (Reads env p s)
      (runOn (fun m => feedArmKeyword env (scan env m) word location) q t) := by
  have hbody : q.stage.isBody = true := by
    obtain hstage | hstage := hstage <;> rw [hstage] <;> rfl
  have horder : q.InOrder (ofDefects env (BlamesButtons env (Reads env p s)) (Or.inl hhost)) :=
    in_order_of_defects hhost
  unfold feedArmKeyword
  rw [runOn]
  split
  · exact (in_order_close_arm horder fun h => close_conditional_custody h).blames_only t _
  · exact (in_order_close_arm horder fun h => next_condition_custody h).blames_only t _
  · exact (in_order_close_arm horder fun h => goto_custody _ h).blames_only t _
  · exact read_nested_admits hhost hnested hoffers hbody (Or.inl rfl)
  · exact read_nested_admits hhost hnested hoffers hbody (Or.inr rfl)
  · refine read_line_admits hhost hoffers ?_
    obtain hstage | hstage := hstage
    all_goals
      rw [hstage]
      cases word with
      | extension code => rfl
      | builtin word => cases word <;> first | rfl | contradiction

theorem feed_loop_keyword_admits {word : Keyword}
    (hoffers : Offers env (fun m => feed env (scan env m)) p s tokens (.keyword word) location q t)
    (hstage : q.stage = .whileBody) :
    BlamesOnlyButtons env (Reads env p s)
      (runOn (fun m => feedLoopKeyword env (scan env m) word location) q t) := by
  have hbody : q.stage.isBody = true := by rw [hstage]; rfl
  have horder : q.InOrder (ofDefects env (BlamesButtons env (Reads env p s)) (Or.inl hhost)) :=
    in_order_of_defects hhost
  unfold feedLoopKeyword
  rw [runOn]
  split
  · exact (close_loop_custody horder).blames_only t _
  · exact read_nested_admits hhost hnested hoffers hbody (Or.inl rfl)
  · exact read_nested_admits hhost hnested hoffers hbody (Or.inr rfl)
  · refine read_line_admits hhost hoffers ?_
    rw [hstage]
    cases word with
    | extension code => rfl
    | builtin word => cases word <;> first | rfl | contradiction

theorem feed_keyword_admits {word : Keyword}
    (hoffers : Offers env (fun m => feed env (scan env m)) p s tokens (.keyword word)
      location q t) :
    BlamesOnlyButtons env (Reads env p s)
      (runOn (fun m => feedKeyword env (scan env m) word location) q t) := by
  have hopening (word : Builtin) : TakesToken
      (ofDefects env (BlamesButtons env (Reads env p s)) (Or.inl hhost)) t.unread (do
        opening env word location none
        pure .more) q true :=
    (opening_custody word none (in_order_of_defects hhost)).bind fun _ _ _ h => .pure h
  have horder : q.InOrder (ofDefects env (BlamesButtons env (Reads env p s)) (Or.inl hhost)) :=
    in_order_of_defects hhost
  unfold feedKeyword
  rw [runOn, Reading.run_get_bind]
  split
  · exact (hopening _).blames_only t _
  · exact (hopening _).blames_only t _
  · exact (hopening _).blames_only t _
  next hstage => exact feed_arm_keyword_admits hhost hnested hoffers (Or.inl hstage)
  next hstage => exact feed_arm_keyword_admits hhost hnested hoffers (Or.inr hstage)
  next hstage => exact feed_loop_keyword_admits hhost hnested hoffers hstage
  · exact (Custody.Keeps.warn (pass_else_junk_custody horder)).blames_only t _
  · exact MeetsOnly.refuse t _

omit hnested in
theorem feed_other_admits
    (hoffers : Offers env (fun m => feed env (scan env m)) p s tokens token location q t)
    (hkeyword : ∀ word, token ≠ .keyword word) (hnewline : token ≠ .special .newline) :
    BlamesOnlyButtons env (Reads env p s) (runOn (fun _ => feedOther env token location) q t) := by
  have hline : q.stage.isBody = true → q.stage.startsLine token = true := by
    intro hbody
    cases hstage : q.stage with
    | ifBody | elseBody | whileBody => unfold Stage.startsLine; split <;> simp_all
    | _ => rw [hstage] at hbody; cases hbody
  have horder : q.InOrder (ofDefects env (BlamesButtons env (Reads env p s)) (Or.inl hhost)) :=
    in_order_of_defects hhost
  unfold feedOther
  rw [runOn, Reading.run_get_bind]
  split
  next hstage => exact read_line_admits hhost hoffers (hline (by rw [hstage]; rfl))
  next hstage => exact read_line_admits hhost hoffers (hline (by rw [hstage]; rfl))
  next hstage => exact read_line_admits hhost hoffers (hline (by rw [hstage]; rfl))
  · exact (Custody.Keeps.warn (pass_else_junk_custody horder)).blames_only t _
  · exact (pass_else_junk_custody horder).blames_only t _
  · exact MeetsOnly.refuse t _

/-- A token at which a block stops for a defect starts a statement or a block inside it. -/
theorem feed_admits
    (hoffers : Offers env (fun m => feed env (scan env m)) p s tokens token location q t) :
    BlamesOnlyButtons env (Reads env p s)
      (runOn (fun m => feed env (scan env m) token location) q t) := by
  unfold feed
  rw [runOn]
  split
  · exact feed_keyword_admits hhost hnested hoffers
  · exact (feed_newline_custody (in_order_of_defects hhost)).blames_only t _
  next hkeyword hnewline => exact feed_other_admits hhost hoffers hkeyword hnewline

end Feed

theorem scans_scan {p : Block} {s : Session} (h : s.unread ≤ n) :
    Reading.Scans env (fun _ => false) (fun m => feed env (scan env m)) p s
      ((scan env n).run p s h) := by
  rw [scan]
  exact Reading.scans_scan_from h

/-- A block that stops for a defect does so at a message box with too many buttons. -/
theorem scan_admits (hhost : env.extensions.Regular) (p : Block) (s : Session) (h : s.unread ≤ n) :
    Reading.Admits (BlamesButtons env (Reads env p s)) (fun _ _ => True)
      ((scan env n).run p s h) := by
  induction hunread : s.unread using Nat.strongRecOn generalizing n p s with
  | ind unread ih =>
      subst hunread
      rcases hrun : (scan env n).run p s h with ⟨(_ | _ | defect) | _, q, t⟩
      · trivial
      · trivial
      · rw [scan] at hrun
        obtain ⟨tokens, token, location, q, t, hoffers, hanswer⟩ :=
          Reading.exists_offers_of_internal (fun m => feed env (scan env m)) h
            (congrArg Result.outcome hrun)
        refine hanswer.among (feed_admits hhost (fun inner u hle => ?_) hoffers)
        exact ih u.unread (Nat.lt_of_le_of_lt hle hoffers.unread_lt) inner u hle rfl
      · trivial

end Block

/-! ### Bodies -/

namespace Body

/-- A statement starts at this token, where `ends` tells whether the body ends at `end`. -/
def startsLine (ends : Bool) : Token → Bool
  | .keyword (.builtin .endScript) => !ends
  | .keyword (.builtin word) => word ∉ [.ifBlock, .elseIf, .whileBlock, .endIf]
  | .special sign => sign ∉ [.newline, .opening]
  | _ => true

/-- The word of the block that starts at this token, and the token if the condition starts with
it. -/
def opensBlock? (location : Location) : Token → Option (Builtin × Option (Token × Location))
  | .keyword (.builtin .ifBlock) => some (.ifBlock, none)
  | .keyword (.builtin .elseIf) => some (.elseIf, none)
  | .keyword (.builtin .whileBlock) => some (.whileBlock, none)
  | .special .opening => some (.ifBlock, some (.special .opening, location))
  | _ => none

/-- A body in this state reads a statement at the spot, itself or in a block. -/
inductive Reads (env : Environment) (p : Body) (s : Session) : Spot → Prop where
  | line {q : Body} {t : Session} {tokens : List Token} {token : Token} {location : Location}
      (hoffers : Offers env (fun _ => feed env) p s tokens token location q t)
      (hline : startsLine q.ends token = true) : Reads env p s ⟨!q.ends, token, location, t⟩
  | block {q : Body} {t u : Session} {tokens : List Token} {token : Token} {location : Location}
      {word : Builtin} {first : Option (Token × Location)} {inner : Block} {spot : Spot}
      (hoffers : Offers env (fun _ => feed env) p s tokens token location q t)
      (hblock : opensBlock? location token = some (word, first))
      (hopening : runOn (fun _ => Block.opening env word location first) {} t = ⟨.ok (), inner, u⟩)
      (hinner : inner.Reads env u spot) : Reads env p s spot

variable {p q : Body} {s t : Session} {tokens : List Token} {token : Token} {location : Location}
  (hhost : env.extensions.Regular)

include hhost

theorem read_line_admits (hoffers : Offers env (fun _ => feed env) p s tokens token location q t)
    (hline : startsLine q.ends token = true) :
    BlamesOnlyButtons env (Reads env p s) (runOn (fun _ => readLine env token location) q t) := by
  have hcompile := Statement.compile_admits hhost ⟨!q.ends, token, location, t⟩
  rw [runOn, readLine, Reading.run_get_bind]
  refine MeetsOnly.admits_nested (hcompile.mono fun defect hdefect => ?_) fun _ _ _ => ?_
  · exact ⟨hdefect.1, _, .line hoffers hline, hdefect.2⟩
  · exact .modify (.pure trivial)

theorem read_block_admits {word : Builtin} {first : Option (Token × Location)}
    (hoffers : Offers env (fun _ => feed env) p s tokens token location q t)
    (hblock : opensBlock? location token = some (word, first)) :
    BlamesOnlyButtons env (Reads env p s)
      (runOn (fun _ => readBlock env word location first) q t) := by
  refine MeetsOnly.admits_nested (MeetsOnly.admits_recover_line (fun _ => True)
    (Block.open_admits hhost fun inner u h hopening => ?_)) fun read inner _ => ?_
  · refine (Block.scan_admits hhost inner u h).mono ?_
    rintro defect ⟨rfl, spot, hreads, hlists⟩
    exact ⟨rfl, spot, .block hoffers hblock hopening hreads, hlists⟩
  · dsimp only
    split
    · exact .modify (.pure trivial)
    · exact .pure trivial

/-- A token at which a body stops for a defect starts a statement or a block. -/
theorem feed_admits (hoffers : Offers env (fun _ => feed env) p s tokens token location q t) :
    BlamesOnlyButtons env (Reads env p s) (runOn (fun _ => feed env token location) q t) := by
  unfold feed
  rw [runOn]
  split
  · exact read_block_admits hhost hoffers rfl
  · exact read_block_admits hhost hoffers rfl
  · exact read_block_admits hhost hoffers rfl
  · exact MeetsOnly.warn (.bind .skip_line fun _ _ _ => .pure trivial) t _
  · rw [Reading.run_get_bind]
    split
    · trivial
    next hends => exact read_line_admits hhost hoffers (by simpa [startsLine] using hends)
  · trivial
  · exact read_block_admits hhost hoffers rfl
  · refine read_line_admits hhost hoffers ?_
    cases token with
    | keyword word =>
        cases word with
        | extension code => rfl
        | builtin word => cases word <;> first | rfl | contradiction
    | special sign => cases sign <;> first | rfl | contradiction
    | int | float | name | comment | endOfText => rfl

omit hhost in
theorem scans_scan (h : s.unread ≤ n) :
    Reading.Scans env (!·.ends) (fun _ => feed env) p s
      ((scan env : Reading n Body Unit).run p s h) :=
  Reading.scans_scan_from h

/-- A body that stops for a defect does so at a message box with too many buttons. -/
theorem scan_admits (p : Body) (s : Session) (h : s.unread ≤ n) :
    Reading.Admits (BlamesButtons env (Reads env p s)) (fun _ _ => True)
      ((scan env : Reading n Body Unit).run p s h) := by
  rcases hrun : (scan env : Reading n Body Unit).run p s h with ⟨(_ | _ | defect) | _, q, t⟩
  · trivial
  · trivial
  · obtain ⟨tokens, token, location, q, t, hoffers, hanswer⟩ :=
      Reading.exists_offers_of_internal (fun _ => feed env) h (congrArg Result.outcome hrun)
    exact hanswer.among (feed_admits hhost hoffers)
  · trivial

end Body

/-! ### Script files -/

namespace ScriptFile

/-- A script file reads a statement of its body at the spot. -/
inductive Reads (env : Environment) (s : Session) : Spot → Prop where
  | body {q : ScriptFile} {t : Session} {tokens : List Token} {location : Location} {spot : Spot}
      (hoffers : Offers env (fun _ => feed env) {} s tokens (.special .newline) location q t)
      (hstage : q.stage = .beginComplete) (hbody : Body.Reads env { ends := true } t spot) :
      Reads env s spot

variable {q : ScriptFile} {s t : Session} {tokens : List Token} {token : Token}
  {location : Location} (hhost : env.extensions.Regular)

include hhost

theorem feed_admits
    (hoffers : Offers env (fun _ => feed env) {} s tokens token location q t) :
    BlamesOnlyButtons env (Reads env s) (runOn (fun _ => feed env token location) q t) := by
  have hname (name : String) : TakesToken
      (ofDefects env (BlamesButtons env (Reads env s)) (Or.inl hhost)) t.unread
      (feedEndName name location) q :=
    feed_end_name_custody name
  unfold feed
  rw [runOn, Reading.run_get_bind]
  split
  · trivial
  · dsimp only
    split <;> trivial
  · trivial
  · trivial
  · trivial
  next hstage =>
    refine MeetsOnly.admits_within
      ((Body.scan_admits hhost { ends := true } t (Nat.le_refl _)).mono ?_) ?_ ?_
    · rintro defect ⟨rfl, spot, hreads, hlists⟩
      exact ⟨rfl, spot, .body hoffers hstage hreads, hlists⟩
    · exact fun _ _ _ => .modify (.modify (.pure trivial))
    · exact fun _ _ hreason _ _ => hreason
  · exact (hname _).blames_only t _
  · exact (hname _).blames_only t _
  · trivial
  · trivial
  · exact MeetsOnly.refuse t _

omit hhost in
theorem scans_scan (h : s.unread ≤ n) :
    Reading.Scans env mayEnd (fun _ => feed env) q s
      ((scan env : Reading n ScriptFile Unit).run q s h) :=
  Reading.scans_scan_from h

/-- A script file that stops for a defect does so at a message box with too many buttons. -/
theorem scan_admits (s : Session) (h : s.unread ≤ n) :
    Reading.Admits (BlamesButtons env (Reads env s)) (fun _ _ => True)
      ((scan env : Reading n ScriptFile Unit).run {} s h) := by
  rcases hrun : (scan env : Reading n ScriptFile Unit).run {} s h with ⟨(_ | _ | defect) | _, q, t⟩
  · trivial
  · trivial
  · obtain ⟨tokens, token, location, q, t, hoffers, hanswer⟩ :=
      Reading.exists_offers_of_internal (fun _ => feed env) h (congrArg Result.outcome hrun)
    exact hanswer.among (feed_admits hhost hoffers)
  · trivial

end ScriptFile

/-! ### Compilations -/

theorem Compilation.outcome_of_result_eq_error {σ α : Type} {result : Result σ Unit}
    {make : σ → Session → α} {reason : Abort} :
    (Compilation.ofResult result make).outcome = .error reason ↔
      result.outcome = .error reason := by
  unfold ofResult
  cases result.outcome <;> simp [Except.map]

/-- The entries of a registry are regular if their signatures are. -/
theorem Registry.Built.regular {registry : Registry} (h : registry.Built)
    (hletters : ∀ keyword extension, registry.Has keyword extension →
      ∀ letter ∈ extension.arguments.toList, letter ∈ Signature.letters)
    (hoptional : ∀ keyword extension, registry.Has keyword extension →
      (Signature.behindStroke extension.arguments.toList).length ≤ 255) : registry.Regular := by
  intro code extension hentry
  obtain ⟨keyword, hkeyword⟩ : ∃ keyword, registry.Has keyword extension := by
    obtain hfunction | hinstruction := hentry
    · exact (h.function hfunction).2
    · exact (h.instruction hinstruction).2
  exact ⟨hletters keyword extension hkeyword, hoptional keyword extension hkeyword,
    (h.admits hkeyword).1⟩

/-- The only defect that a text can bring about, as a script or on the console, is a message box
with too many buttons, and then the text has a message box that lists at least 256 of them. -/
theorem compile_defect_eq_too_many_buttons {env : Environment} (hbuilt : env.extensions.Built)
    (hletters : ∀ keyword extension, env.extensions.Has keyword extension →
      ∀ letter ∈ extension.arguments.toList, letter ∈ Signature.letters)
    (hoptional : ∀ keyword extension, env.extensions.Has keyword extension →
      (Signature.behindStroke extension.arguments.toList).length ≤ 255)
    (source : String) (log : Log) (defect : Defect) :
    ((compileScript env source log).outcome = .error (.internal defect) →
      defect = .tooManyButtons ∧ ∃ spot, ScriptFile.Reads env
        { scanner := Scanner.ofText source, log } spot ∧ spot.ListsButtons env 256) ∧
    ∀ locals, (compileConsole env source log locals).outcome = .error (.internal defect) →
      defect = .tooManyButtons ∧ ∃ spot, Body.Reads env { ends := false }
        { scanner := Scanner.ofText (source ++ "\n"), log, locals } spot ∧
        spot.ListsButtons env 256 := by
  have hhost := hbuilt.regular hletters hoptional
  refine ⟨fun hstop => ?_, fun locals hstop => ?_⟩
  · have hadmits := ScriptFile.scan_admits hhost { scanner := Scanner.ofText source, log }
      (Nat.le_refl _)
    rw [Reading.Admits, show ((ScriptFile.scan env).run _ _ _).outcome = _ from
      Compilation.outcome_of_result_eq_error.1 hstop] at hadmits
    exact hadmits
  · have hadmits := Body.scan_admits hhost { ends := false }
      { scanner := Scanner.ofText (source ++ "\n"), log, locals } (Nat.le_refl _)
    rw [Reading.Admits, show ((Body.scan env).run _ _ _).outcome = _ from
      Compilation.outcome_of_result_eq_error.1 hstop] at hadmits
    exact hadmits

/-- A message box with an instruction for its text and 256 buttons that have no text. -/
def crowdedBox : List Char :=
  "messagebox additem ".toList ++ List.replicate 512 '"'

theorem crowded_box_to_list : (String.ofList crowdedBox ++ "\n").toList = crowdedBox ++ ['\n'] := by
  rw [String.toList_append, String.toList_ofList, show "\n".toList = ['\n'] from rfl]

set_option maxRecDepth 10000 in
theorem crowded_box_too_many_buttons :
    (compileConsole harvestEnvironment (String.ofList crowdedBox) {} {}).outcome =
        .error (.internal .tooManyButtons) ∧
      ∃ spot, Body.Reads harvestEnvironment { ends := false }
        { scanner := Scanner.ofText (String.ofList crowdedBox ++ "\n") } spot ∧
        spot.ListsButtons harvestEnvironment 256 := by
  have hrun : (Reading.runOn (fun _ => Body.scan harvestEnvironment) { ends := false }
      { scanner := { rest := crowdedBox ++ ['\n'] } }).outcome =
        .error (.internal .tooManyButtons) := by
    decide +kernel
  have hadd : Registry.addInstruction "AddItem" "c/l" 0x20010 (some 0x20011) {} =
      .ok () harvestEnvironment.extensions := by
    rfl
  have hstop : (compileConsole harvestEnvironment (String.ofList crowdedBox) {} {}).outcome =
      .error (.internal .tooManyButtons) := by
    refine Compilation.outcome_of_result_eq_error.2 ?_
    rw [Scanner.ofText, crowded_box_to_list]
    exact hrun
  have hentries (keyword : String) (extension : Extension)
      (h : harvestEnvironment.extensions.Has keyword extension) : extension.arguments = "c/l" := by
    obtain ⟨code, -, hentry | hentry⟩ := h
    · cases hentry
    · rw [Registry.instruction?, harvestEnvironment, lookup_cons_eq_ite] at hentry
      split at hentry <;> cases hentry
      rfl
  refine ⟨hstop, ((compile_defect_eq_too_many_buttons (.addInstruction .empty hadd) ?_ ?_
    (String.ofList crowdedBox) {} _).2 {} hstop).2⟩
  · intro keyword extension hentry
    rw [hentries keyword extension hentry]
    simp [Signature.letters]
  · intro keyword extension hentry
    rw [hentries keyword extension hentry]
    decide

/-- The end of a line also ends the mode in which the texts of a message box are no keywords, even
if it stands inside a text. So the button behind such a text ends the script. -/
theorem button_reads_keyword :
    (compileScript {} "begin x\nmessagebox \"Rise\nnow\" \"end\"\nend\n" {}).outcome.map
        (·.code) = .ok [] ∧
      (compileScript {} "begin x\nmessagebox \"Rise\tnow\" \"end\"\nend\n" {}).outcome.map
        (·.code) = .ok [0x00000000, 0x00000001, 0xc0000001] := by
  decide +kernel

end QuestScript
