import QuestScript.Proofs.Coupling.Scanners
import QuestScript.Proofs.Coupling.Expression
import QuestScript.Proofs.Defects

/-!
# Optional readings that find nothing

An optional reading that has found nothing says so by its progress: it is still empty. Whoever reads
next then has to find everything that was ahead before. `Session.Leaves` says what is still ahead in
terms of the tokens that the scanner delivers.

A dropped argument leaves everything, and a text argument everything but one comma in front. An
expression takes the signs in front of its first operand without a note of it, so that they are gone
although the reading counts as empty (`lone_minus`). The main statement is
`optional_empty_leaves`: comments, one comma in front and these signs are all that can be missing.
-/

namespace QuestScript

open Reading

/-! ### What is left for whoever reads next -/

namespace Scanner

variable {s : Scanner} {registry : Registry} {token : Token} {l : Location}
  {tolerantAfter : Option Bool}

theorem line_start_of_deliver_word {name : String} {place : Location} {tolerant : Option Bool}
    {reports : List Report}
    (h : (s.deliverWord registry name place tolerant reports).item = .token token l tolerantAfter) :
    (s.deliverWord registry name place tolerant reports).scanner.lineStart =
      decide (token = .special .newline) := by
  unfold deliverWord at h ⊢
  split at h <;> cases h <;> rfl

theorem line_start_of_settle {line : Nat} {text : List Char} {lexeme : Lexeme}
    (h : (s.settle registry line text lexeme).item = .token token l tolerantAfter) :
    (s.settle registry line text lexeme).scanner.lineStart =
      decide (token = .special .newline) := by
  cases lexeme with
  | blank | strayQuote | openQuote | brokenDecimal | strays | unknown => cases h
  | comment | integer | decimal | comparison =>
      cases h
      rfl
  | sign special => cases special <;> cases h <;> rfl
  | word => exact line_start_of_deliver_word h
  | signedWord => exact line_start_of_deliver_word h
  | quoted body closed =>
      unfold settle at h ⊢
      dsimp only at h ⊢
      split at h
      next hstrict =>
        cases h
        rw [if_pos hstrict]
        rfl
      next hstrict =>
        rw [if_neg hstrict]
        exact line_start_of_deliver_word h

theorem line_start_of_pull (h : (s.pull registry).item = .token token l tolerantAfter) :
    (s.pull registry).scanner.lineStart = decide (token = .special .newline) := by
  cases hpending : s.pending with
  | some waiting =>
      unfold pull at h ⊢
      rw [hpending] at h ⊢
      cases h
      rfl
  | none =>
      cases hrest : s.rest with
      | nil =>
          unfold pull at h
          rw [hpending, hrest] at h
          cases h
      | cons c rest =>
          rw [pull_eq_settle hpending hrest] at h ⊢
          exact line_start_of_settle h

/-- A token that is put back where it has been pulled is delivered as if nothing had happened. -/
theorem redeliver_of_pull (h : (s.pull registry).item = .token token l tolerantAfter) :
    ((s.pull registry).scanner.restoreNames tolerantAfter).redeliver token =
      (s.pull registry).scanner.restoreNames tolerantAfter := by
  have hline := line_start_of_pull h
  have hpending := s.pending_pull registry
  generalize (s.pull registry).scanner = next at hline hpending
  have hself : next.redeliver token = next := by
    rw [redeliver, hpending, ← hline, Option.toList_none, List.append_nil, ← hpending]
  cases tolerantAfter with
  | none => exact hself
  | some setting =>
      exact congrArg (·.mapModes fun modes => { modes with tolerantNames := setting }) hself

end Scanner

namespace Scanner.Delivers

variable {registry : Registry} {s : Scanner} {token : Token} {l : Location}
  {tolerantAfter : Option Bool}

/-- What is ahead of a scanner that passes over something. -/
theorem pass_iff (hpass : (s.pull registry).item.IsPassed) (first : Token × Location)
    (tokens : List (Token × Location)) (later : List Report) (final : Scanner) :
    Delivers registry s (first :: tokens) ((s.pull registry).reports ++ later) final ↔
      Delivers registry (s.pull registry).scanner (first :: tokens) later final := by
  refine ⟨fun h => ?_, .pass hpass⟩
  generalize hreports : (s.pull registry).reports ++ later = reports at h
  cases h with
  | pass _ hrest => exact List.append_cancel_left hreports ▸ hrest
  | @take _ _ token _ _ _ _ hpull hend hcomment =>
      rw [hpull] at hpass
      cases token with
      | comment text => exact absurd rfl (hcomment text)
      | int | float | name | keyword | special | endOfText => cases hpass

/-- What is ahead of a scanner that comes to a token. -/
theorem take_iff (hpull : (s.pull registry).item = .token token l tolerantAfter)
    (htoken : token.IsOffered) (first : Token × Location) (tokens : List (Token × Location))
    (later : List Report) (final : Scanner) :
    Delivers registry s (first :: tokens) ((s.pull registry).reports ++ later) final ↔
      first = (token, l) ∧
        Delivers registry ((s.pull registry).scanner.restoreNames tolerantAfter) tokens later
          final := by
  refine ⟨fun h => ?_, ?_⟩
  · generalize hreports : (s.pull registry).reports ++ later = reports at h
    cases h with
    | pass hpass =>
        rw [hpull] at hpass
        cases token with
        | comment text => exact absurd rfl (htoken.2 text)
        | int | float | name | keyword | special | endOfText => cases hpass
    | take hpull' _ _ hrest =>
        cases hpull.symm.trans hpull'
        exact ⟨rfl, List.append_cancel_left hreports ▸ hrest⟩
  · rintro ⟨rfl, hrest⟩
    exact .take hpull htoken.1 htoken.2 hrest

end Scanner.Delivers

/-- Of the tokens ahead in one session the first ones, `lead`, are gone in the other. All that
follow are still ahead, at their places, and there is at least one. Apart from that only the
scanner's reports up to there have gone to the log. -/
structure Session.Leaves (env : Environment) (s : Session) (lead : List (Token × Location))
    (t : Session) : Prop where
  locals : t.locals = s.locals
  literals : t.literals = s.literals
  next : ∃ first final, t.scanner.Delivers env.extensions [first] [] final
  ahead : ∃ reports, t.log = reports.foldl Log.enter s.log ∧
    ∀ first tokens later final,
      t.scanner.Delivers env.extensions (first :: tokens) later final ↔
        s.scanner.Delivers env.extensions (lead ++ first :: tokens) (reports ++ later) final

namespace Session.Leaves

variable {env : Environment} {s s' t : Session} {item : Item} {token : Token} {l : Location}
  {tolerantAfter : Option Bool} {lead : List (Token × Location)}

theorem of_pass (hpull : s.pull env = (item, s')) (hpass : item.IsPassed)
    (h : s'.Leaves env lead t) : s.Leaves env lead t := by
  obtain ⟨rfl, rfl⟩ := Prod.mk.inj hpull
  obtain ⟨reports, hlog, hahead⟩ := h.ahead
  refine ⟨h.locals, h.literals, h.next, (s.scanner.pull env.extensions).reports ++ reports, ?_, ?_⟩
  · rw [List.foldl_append]
    exact hlog
  · intro first tokens later final
    rw [hahead, List.append_assoc]
    cases lead with
    | nil => exact (Scanner.Delivers.pass_iff hpass _ _ _ _).symm
    | cons => exact (Scanner.Delivers.pass_iff hpass _ _ _ _).symm

theorem of_take (hpull : s.pull env = (.token token l tolerantAfter, s'))
    (htoken : token.IsOffered) (h : (s'.restoreNames tolerantAfter).Leaves env lead t) :
    s.Leaves env ((token, l) :: lead) t := by
  obtain ⟨hitem, rfl⟩ := Prod.mk.inj hpull
  rw [Session.scanner_restore_names] at h
  obtain ⟨reports, hlog, hahead⟩ := h.ahead
  refine ⟨h.locals, h.literals, h.next, (s.scanner.pull env.extensions).reports ++ reports, ?_, ?_⟩
  · rw [List.foldl_append]
    exact hlog
  · intro first tokens later final
    rw [hahead, List.append_assoc, List.cons_append, Scanner.Delivers.take_iff hitem htoken]
    exact ⟨fun hrest => ⟨rfl, hrest⟩, And.right⟩

/-- A token that is put back is ahead again. -/
theorem of_put_back (hpull : s.pull env = (.token token l tolerantAfter, s'))
    (htoken : token.IsOffered) :
    s.Leaves env [] ((s'.restoreNames tolerantAfter).putBack token l) := by
  obtain ⟨hitem, rfl⟩ := Prod.mk.inj hpull
  rw [Session.scanner_restore_names]
  let ahead := (s.pull env).2.scanner.restoreNames tolerantAfter
  have hback : (ahead.putBack token l).pull env.extensions = ⟨.token token l none, ahead, []⟩ := by
    rw [Scanner.pull_put_back]
    exact congrArg (Pulled.mk _ · _) (Scanner.redeliver_of_pull hitem)
  have htake := Scanner.Delivers.take_iff (congrArg Pulled.item hback) htoken
  rw [hback] at htake
  refine ⟨rfl, rfl, ⟨(token, l), ahead, (htake _ _ [] _).2 ⟨rfl, .nil _⟩⟩,
    (s.scanner.pull env.extensions).reports, rfl, fun first tokens later final => ?_⟩
  exact (htake first tokens later final).trans
    (Scanner.Delivers.take_iff hitem htoken first tokens later final).symm

end Session.Leaves

/-! ### Scans that find nothing -/

namespace Reading

variable {σ : Type} {env : Environment} {mayEnd : σ → Bool}
  {feed : (m : Nat) → Token → Location → Reading m σ Verdict} {p : σ} {s : Session}
  {r : Result σ Unit}

theorem reader_of_last {inv : σ → Prop} {l : Location} {tolerantAfter : Option Bool}
    {answer : Result σ Verdict} (hanswer : Turn.ofAnswer l tolerantAfter answer = .last r)
    (hok : r.outcome = .ok ()) (h : Admits (fun _ => True) (fun _ q => inv q) answer) :
    inv r.reader := by
  obtain ⟨_ | verdict, q, t⟩ := answer
  · cases hanswer
    cases hok
  · cases verdict with
    | more => cases hanswer
    | done | handBack back =>
        cases hanswer
        exact h
    | giveUp back reason =>
        cases hanswer
        cases hok

/-- What every answer keeps is kept by a scan that succeeds. -/
theorem Scans.keeps {inv : σ → Prop}
    (hfeed : ∀ p, inv p → ∀ m token l,
      Yields (feed m token l) p fun _ q => inv q)
    (h : Scans env (fun _ => false) feed p s r) (hok : r.outcome = .ok ()) (hp : inv p) :
    inv r.reader := by
  induction h with
  | ended | malformed => cases hok
  | pass _ _ _ ih => exact ih hok hp
  | @last p s s' token l tolerantAfter r hpull hend hcomment hanswer =>
      exact reader_of_last hanswer hok (hfeed p hp s'.unread token l s' (Nat.le_refl _))
  | @more p q s s' t token l tolerantAfter r hpull hend hcomment hanswer _ ih =>
      have hadmits := hfeed p hp s'.unread token l s' (Nat.le_refl _)
      rw [show (feed s'.unread token l).run p s' _ = _ from hanswer] at hadmits
      exact ih hok hadmits

/-- What a reader that has found nothing answers to a token: it takes the token without any other
effect and has still found nothing, it hands the token back, or it has found something. Here `inv`
says of a reader that it has found nothing and which tokens it has taken. -/
inductive LeavesToken (inv : List Token → σ → Prop) (started : σ → Prop) (lead : List Token)
    (token : Token) (s : Session) : Result σ Verdict → Prop where
  | take {q : σ} (hq : inv (lead ++ [token]) q) :
      LeavesToken inv started lead token s ⟨.ok .more, q, s⟩
  | handBack (q : σ) : LeavesToken inv started lead token s ⟨.ok (.handBack token), q, s⟩
  | start {answer : Result σ Verdict} (h : Admits (fun _ => True) (fun _ q => started q) answer) :
      LeavesToken inv started lead token s answer

/-- A scan that finds nothing leaves everything ahead but for the tokens that its reader has
taken. -/
theorem Scans.leaves (inv : List Token → σ → Prop) (started : σ → Prop) {lead : List Token}
    (hstarted : ∀ p, started p → ∀ m token l,
      Yields (feed m token l) p fun _ q => started q)
    (hfeed : ∀ lead p, inv lead p → ∀ token l s, token.IsOffered →
      LeavesToken inv started lead token s (runOn (fun m => feed m token l) p s))
    (h : Scans env (fun _ => false) feed p s r) (hok : r.outcome = .ok ())
    (hnothing : ¬started r.reader) (hp : inv lead p) :
    ∃ taken q, inv (lead ++ taken.map Prod.fst) q ∧ s.Leaves env taken r.session := by
  induction h generalizing lead with
  | ended | malformed => cases hok
  | pass hpull hpass _ ih =>
      obtain ⟨taken, q, hq, hleaves⟩ := ih hok hnothing hp
      exact ⟨taken, q, hq, .of_pass hpull hpass hleaves⟩
  | @last p s s' token l tolerantAfter r hpull hend hcomment hanswer =>
      have hleaves := hfeed lead p hp token l s' ⟨hend, hcomment⟩
      generalize runOn (fun m => feed m token l) p s' = answer at hanswer hleaves
      cases hleaves with
      | take => cases hanswer
      | handBack q =>
          cases hanswer
          exact ⟨[], p, by simpa using hp, .of_put_back hpull ⟨hend, hcomment⟩⟩
      | start hadmits => exact absurd (reader_of_last hanswer hok hadmits) hnothing
  | @more p q s s' t token l tolerantAfter r hpull hend hcomment hrun hrest ih =>
      have hleaves := hfeed lead p hp token l s' ⟨hend, hcomment⟩
      rw [hrun] at hleaves
      cases hleaves with
      | take hq =>
          obtain ⟨taken, q, hq, hleaves⟩ := ih hok hnothing hq
          refine ⟨(token, l) :: taken, q, ?_, .of_take hpull ⟨hend, hcomment⟩ hleaves⟩
          simpa using hq
      | start hadmits => exact absurd (hrest.keeps hstarted hok hadmits) hnothing

end Reading

/-! ### Dropped arguments and text arguments -/

section Progress

variable {n : Nat} {σ : Type} {progress : Progress} {token : Token} {l : Location} {p : σ}
  {inv : List Token → σ → Prop} {started : σ → Prop} {lead : List Token} {s : Session}
  {hs : s.unread ≤ n}

theorem Progress.refuse_started (hp : started p) :
    Yields (progress.refuse token l : Reading n σ Verdict) p
      fun _ q => started q := by
  unfold refuse
  split
  · exact .pure hp
  · exact .refuse

theorem Progress.refuse_leaves (h : progress = { optional := true }) :
    LeavesToken inv started lead token s
      ((progress.refuse token l : Reading n σ Verdict).run p s hs) := by
  subst h
  exact .handBack p

end Progress

namespace DroppedArgument

variable {n : Nat} {argument : DroppedArgument} {token : Token} {l : Location}

/-- The argument has been found. -/
def Started (argument : DroppedArgument) : Prop :=
  argument.progress.empty = false

theorem feed_started (h : argument.Started) :
    Yields (feed token l : Reading n DroppedArgument Verdict) argument
      fun _ q => q.Started := by
  refine .get ?_
  cases token with
  | int | float => exact .set (.pure rfl)
  | name text =>
      dsimp only
      split
      · exact Progress.refuse_started h
      · exact .set (.pure rfl)
  | special sign =>
      cases sign with
      | minus =>
          dsimp only
          split
          · exact Progress.refuse_started h
          · exact .set (.pure rfl)
      | _ => exact Progress.refuse_started h
  | keyword | comment | endOfText => exact Progress.refuse_started h

theorem feed_leaves {lead : List Token} (token : Token) (l : Location) (s : Session)
    (h : lead = [] ∧ argument = { progress := { optional := true } }) :
    LeavesToken (fun lead argument => lead = [] ∧ argument = { progress := { optional := true } })
      Started lead token s
      (runOn (fun m => (feed token l : Reading m DroppedArgument Verdict)) argument s) := by
  obtain ⟨rfl, rfl⟩ := h
  cases token with
  | int | float | name => exact .start rfl
  | special sign =>
      cases sign with
      | minus => exact .start rfl
      | _ => exact .handBack _
  | keyword | comment | endOfText => exact .handBack _

theorem scan_leaves {env : Environment} {s : Session} :
    let r := runOn (fun _ => scan env) { progress := { optional := true } } s
    r.outcome = .ok () → r.reader.progress.empty = true → s.Leaves env [] r.session := by
  intro r hok hempty
  have hscans : Scans env (fun _ => false) (fun _ => feed) { progress := { optional := true } } s
      r := scans_scan_from (Nat.le_refl _)
  obtain ⟨taken, _, ⟨hnone, -⟩, hleaves⟩ := hscans.leaves
    (fun lead argument => lead = [] ∧ argument = { progress := { optional := true } }) Started
    (fun _ h _ _ _ => feed_started h) (fun _ _ h token l s _ => feed_leaves token l s h) hok
    (by rw [Started, hempty]; decide) ⟨rfl, rfl⟩
  obtain rfl : taken = [] := List.map_eq_nil_iff.1 hnone
  exact hleaves

end DroppedArgument

namespace TextArgument

variable {n : Nat} {env : Environment} {argument : TextArgument} {token : Token} {l : Location}

/-- The argument has been found. -/
def Started (argument : TextArgument) : Prop :=
  argument.progress.empty = false

theorem accept_started (text : String) :
    Yields (accept text l : Reading n TextArgument Verdict) argument
      fun _ q => q.Started := by
  refine .modify (.get ?_)
  dsimp only
  split
  · exact .pure rfl
  · exact .with_literals fun _ => .set (.pure rfl)

theorem feed_started (h : argument.Started) :
    Yields (feed env token l : Reading n TextArgument Verdict) argument
      fun _ q => q.Started := by
  refine .get ?_
  cases token with
  | name text => exact accept_started text
  | int => exact .warn (accept_started _)
  | keyword word =>
      dsimp only
      split
      · exact accept_started _
      · exact Progress.refuse_started h
  | special sign =>
      cases sign with
      | comma =>
          dsimp only
          split
          · exact .set (.pure h)
          · exact Progress.refuse_started h
      | _ => exact Progress.refuse_started h
  | float | comment | endOfText => exact Progress.refuse_started h

/-- No text has been found yet, and at most a comma has been taken. -/
structure Untouched (lead : List Token) (argument : TextArgument) : Prop where
  progress : argument.progress = { optional := true }
  taken : lead = if argument.comma then [.special .comma] else []

theorem feed_leaves {lead : List Token} (token : Token) (l : Location) (s : Session)
    (h : Untouched lead argument) :
    LeavesToken Untouched Started lead token s
      (runOn (fun m => (feed env token l : Reading m TextArgument Verdict)) argument s) := by
  obtain ⟨hprogress, rfl⟩ := h
  unfold runOn feed
  rw [run_get_bind]
  cases token with
  | name text => exact .start (accept_started text s (Nat.le_refl _))
  | int value => exact .start (accept_started _ _ _)
  | keyword word =>
      dsimp only
      by_cases hword : isName env word = true
      · rw [if_pos hword]
        exact .start (accept_started _ s (Nat.le_refl _))
      · rw [if_neg hword]
        exact Progress.refuse_leaves hprogress
  | special sign =>
      cases sign with
      | comma =>
          dsimp only
          cases hcomma : argument.comma with
          | false =>
              have hfirst : (!false && argument.progress.empty) = true := by rw [hprogress]; rfl
              rw [if_pos hfirst]
              have hq : Untouched [.special .comma] { argument with comma := true } :=
                ⟨hprogress, rfl⟩
              exact .take hq
          | true => exact Progress.refuse_leaves hprogress
      | _ => exact Progress.refuse_leaves hprogress
  | float | comment | endOfText => exact Progress.refuse_leaves hprogress

theorem scan_leaves {s : Session} (h : Untouched [] argument) :
    let r := runOn (fun _ => scan env) argument s
    r.outcome = .ok () → r.reader.progress.empty = true →
      ∃ lead, (lead = [] ∨ ∃ l, lead = [(.special .comma, l)]) ∧ s.Leaves env lead r.session := by
  intro r hok hempty
  have hscans : Scans env (fun _ => false) (fun _ => feed env) argument s r :=
    scans_scan_from (Nat.le_refl _)
  obtain ⟨taken, p, ⟨-, htaken⟩, hleaves⟩ := hscans.leaves Untouched Started
    (fun _ h _ _ _ => feed_started h) (fun _ _ h token l s _ => feed_leaves token l s h) hok
    (by rw [Started, hempty]; decide) h
  refine ⟨taken, ?_, hleaves⟩
  rw [List.nil_append] at htaken
  cases hcomma : p.comma with
  | false =>
      rw [hcomma] at htaken
      exact Or.inl (List.map_eq_nil_iff.1 htaken)
  | true =>
      rw [hcomma] at htaken
      obtain ⟨⟨token, l⟩, rfl, rfl⟩ := List.map_eq_singleton_iff.1 htaken
      exact Or.inr ⟨l, rfl⟩

end TextArgument

/-! ### Expressions -/

namespace Expression

variable {n : Nat} {env : Environment} {e : Expression} {token : Token} {l : Location}
  {nested : Reading n Expression Unit}

/-- An operand has been found. -/
def Started (e : Expression) : Prop :=
  e.progress.empty = false

/-- An operand has been found, or the next token that could be one is. -/
def Starts (e : Expression) : Prop :=
  e.Started ∨ e.object = "" ∧ e.nextOperand = true

theorem Starts.of_object (h : e.Starts) (hobject : (!e.object.isEmpty) = true) : e.Started :=
  h.resolve_right fun hempty => by
    rw [hempty.1] at hobject
    cases hobject

theorem Starts.of_next_operand (h : e.Starts) (hnext : (!e.nextOperand) = true) : e.Started :=
  h.resolve_right fun hempty => by
    rw [hempty.2] at hnext
    cases hnext

theorem refuse_started (h : e.Started) :
    Yields (refuse token l : Reading n Expression Verdict) e
      fun _ q => q.Started :=
  .get (Progress.refuse_started h)

theorem feed_number_started {type : ValueType} {push : Literals → Code × Literals}
    {within : ∀ pool : Literals, pool.Within (push pool).2} (h : e.Starts) :
    Yields
      (feedNumber token type push l within : Reading n Expression Verdict) e
      fun _ q => q.Started := by
  refine .get ?_
  split
  next hobject => exact refuse_started (h.of_object hobject)
  refine .set ?_
  split
  next hnext => exact .pure (h.of_next_operand hnext)
  · exact .modify (.assoc (.with_literals fun _ => .modify (.modify (.modify (.pure rfl)))))

theorem feed_operand_started (name : String) (h : e.Starts) :
    Yields (feedOperand env name l : Reading n Expression Verdict) e
      fun _ q => q.Started := by
  refine .modify (.get ?_)
  split
  next hnext => exact .pure (h.of_next_operand hnext)
  refine .modify (.look fun locals => ?_)
  dsimp only
  split
  · exact .modify (.modify (.pure rfl))
  split
  · exact .assoc (.with_literals fun _ => .modify (.modify (.pure rfl)))
  split
  · exact .modify (.pure rfl)
  · exact .assoc (.with_literals fun _ => .modify (.modify (.modify (.warn (.pure rfl)))))

theorem feed_name_started (name : String) (h : e.Starts) :
    Yields (feedName env name l : Reading n Expression Verdict) e
      fun _ q => q.Started := by
  refine .get ?_
  split
  · exact feed_operand_started name h
  next hobject =>
    replace hobject : (!e.object.isEmpty) = true := by simpa using hobject
    have hstarted := h.of_object hobject
    split
    · exact .set (.warn (feed_operand_started name (Or.inl hstarted)))
    split
    · refine .modify (.get ?_)
      dsimp only
      split
      · exact refuse_started hstarted
      · exact .assoc (.with_literals fun _ => .modify (.modify (.pure hstarted)))
    · exact refuse_started hstarted

/-- The arguments of a function are read by readers of their own. -/
theorem read_arguments_started (signature : String) (h : e.Started) :
    Yields (readArguments env (scan env n) signature) e
      fun _ q => q.Started := by
  have hread : Yields
      (ArgumentList.read env (scan env n) signature : Reading n Expression (Nat × Code)) e
      fun _ q => q = e := by
    intro s hs
    have hrel : s.Displaced s.log s.log s := .refl s
    have hreader := scanner_coupling_readers (ArgumentList.read_sim
      (C := placesCoupling env s.log s.log) (ρ := fun q _ => q = e) (scan_sim n n) signature {} e e
      s s hs hs rfl hrel)
    unfold Admits
    split
    · exact hreader
    next reason _ => exact reason.is_among_any
  refine .bind hread ?_
  rintro found _ rfl
  exact .modify (.pure h)

theorem call_builtin_started (word : Builtin) (h : e.Started) :
    Yields (callBuiltin env (scan env n) word) e fun _ q => q.Started := by
  unfold callBuiltin
  split
  · exact .bind (read_arguments_started _ h) fun _ _ hq => .modify (.modify (.pure hq))
  · exact .modify (.modify (.pure h))
  · exact .bind (read_arguments_started _ h) fun _ _ hq => .modify (.modify (.pure hq))
  · exact .bind (read_arguments_started _ h) fun _ _ hq => .modify (.modify (.pure hq))
  · exact .bind (read_arguments_started _ h) fun _ _ hq =>
      .get (.assoc (.with_literals fun _ => .modify (.modify (.modify (.pure hq)))))
  · exact .modify (.modify (.pure h))
  · exact .get (.assoc (.with_literals fun _ => .modify (.modify (.modify (.pure h)))))
  · exact .pure h

theorem call_extension_started (code : Int) (h : e.Started) :
    Yields (callExtension env (scan env n) code l) e fun _ q => q.Started := by
  have hdefect : ∀ {fragment : Fragment} {f : Code → Reading n Expression Bool} {q : Expression},
      (∀ code, Yields (f code) q fun _ q => q.Started) →
      Yields (Reading.ofDefect fragment.toExcept >>= f) q
        fun _ q => q.Started := by
    intro fragment f q hf
    cases fragment.toExcept with
    | ok code => exact hf code
    | error defect => exact .abort trivial
  cases hfunction : env.extensions.function? code with
  | none =>
      rw [call_extension_of_none hfunction]
      exact .pure h
  | some function =>
      have hcall (e : Expression) : Yields
          (callFunction env (scan env n) function l) e fun _ q => q.Started := by
        refine .modify (.modify (.bind (read_arguments_started _ rfl) fun _ q hq => .get ?_))
        exact .with_literals fun _ => .modify (hdefect fun _ => .modify (.modify (.pure hq)))
      rw [call_extension_of_some hfunction]
      refine .get ?_
      split
      · exact .warn (.modify (hcall _))
      · exact hcall _

theorem call_started (word : Keyword) (h : e.Started) :
    Yields (call env (scan env n) l word) e fun _ q => q.Started := by
  cases word with
  | builtin word => exact call_builtin_started word h
  | extension code => exact call_extension_started code h

theorem feed_function_started (word : Keyword) (h : e.Starts) :
    Yields (feedFunction env (scan env n) word l) e fun _ q => q.Started := by
  have hcalled : ∀ {called : Bool} {q : Expression}, q.Started →
      Yields (if called then pure .more else refuse (.keyword word) l :
        Reading n Expression Verdict) q fun _ q => q.Started := by
    intro called q hq
    split
    · exact .pure hq
    · exact refuse_started hq
  refine .modify (.get ?_)
  split
  next hobject =>
    have hstarted : ({ e with first := false } : Expression).Started := h.of_object hobject
    refine .get ?_
    split
    · split
      · exact .modify (.modify (.bind (call_started _ rfl) fun _ _ hq => .pure hq))
      · exact .modify (.modify (.bind (call_started _ rfl) fun _ _ hq => .pure hq))
      · exact refuse_started hstarted
      · exact .bind (call_extension_started _ hstarted) fun _ _ => hcalled
    · exact refuse_started hstarted
  split
  next hnext => exact .pure (h.of_next_operand hnext)
  · exact .modify (.modify (.bind (call_started word rfl) fun _ _ => hcalled))

theorem feed_keyword_started (word : Keyword) (h : e.Starts) :
    Yields (feedKeyword env (scan env n) word l) e fun _ q => q.Started := by
  unfold feedKeyword
  split <;> split
  · exact feed_name_started _ h
  · exact feed_function_started _ h
  · exact feed_name_started _ h
  · exact feed_function_started _ h

theorem progress_of_emit_operators {q : Expression} {test : Option Operator → Bool}
    (h : e.emitOperators test = .ok q) : q.progress = e.progress := by
  unfold emitOperators at h
  cases hemit : Operator.emitWhile test e.operators e.values with
  | error defect =>
      rw [hemit] at h
      cases h
  | ok emitted =>
      rw [hemit] at h
      cases h
      rfl

theorem progress_of_close {q : Expression} (h : e.close = .ok q) : q.progress = e.progress := by
  unfold close at h
  cases hemit : e.emitOperators fun top => top != some .opening with
  | error defect =>
      rw [hemit] at h
      cases h
  | ok emitted =>
      rw [hemit] at h
      cases h
      exact (progress_of_emit_operators hemit : emitted.progress = e.progress)

theorem progress_of_push_binary {q : Expression} {operator : Operator}
    (h : e.pushBinary operator = .ok q) : q.progress = e.progress := by
  unfold pushBinary at h
  cases hemit : e.emitOperators
    (·.any fun top : Operator => decide (operator.priority ≤ top.priority)) with
  | error defect =>
      rw [hemit] at h
      cases h
  | ok emitted =>
      rw [hemit] at h
      cases h
      exact (progress_of_emit_operators hemit : emitted.progress = e.progress)

theorem of_defect_started {outcome : Except Defect Expression}
    {f : Expression → Reading n Expression Verdict}
    (hf : ∀ q, outcome = .ok q → Yields (f q) e fun _ q => q.Started) :
    Yields (Reading.ofDefect outcome >>= f) e fun _ q => q.Started := by
  cases outcome with
  | ok q => exact hf q rfl
  | error defect => exact .abort trivial

theorem feed_special_started (sign : Special) (h : e.Started) :
    Yields (feedSpecial sign l : Reading n Expression Verdict) e
      fun _ q => q.Started := by
  refine .get ?_
  split
  · refine .get ?_
    split
    · exact .set (.pure h)
    split
    · exact .set (.pure h)
    split
    · exact .set (.pure h)
    · exact refuse_started h
  split
  · exact .set (.pure h)
  refine .set ?_
  split
  · exact .modify (.pure h)
  split
  · refine .get ?_
    split
    · exact .set (.pure h)
    · exact .set (.pure h)
    · exact .set (.pure h)
    · exact refuse_started h
  · refine .get ?_
    split
    · exact .pure h
    · split
      · refine of_defect_started fun q hq => .set (.pure ?_)
        rw [Started, progress_of_close hq]
        exact h
      · exact .set (.pure h)
    · refine .set ?_
      split
      · exact refuse_started h
      split
      · exact .pure h
      · refine of_defect_started fun q hq => .set (.pure ?_)
        rw [Started, progress_of_push_binary hq]
        exact h

/-- Once an operand has been found the reading does not count as empty again. -/
theorem feed_started (token : Token) (l : Location) (h : e.Started) :
    Yields (feed env (scan env n) token l) e fun _ q => q.Started := by
  cases token with
  | int | float => exact feed_number_started (Or.inl h)
  | name name => exact feed_name_started name (Or.inl h)
  | keyword word => exact feed_keyword_started word (Or.inl h)
  | special sign => exact feed_special_started sign h
  | comment | endOfText => exact refuse_started h

/-- The signs that may stand in front of an operand. -/
def isLeadingSign : Special → Bool
  | .minus | .plus | .opening => true
  | _ => false

/-- What an expression can take without finding an operand: one comma, and signs behind it. -/
def IsLead (lead : List Token) : Prop :=
  ∃ signs : List Special, (∀ sign ∈ signs, isLeadingSign sign = true) ∧
    (lead = signs.map .special ∨ lead = .special .comma :: signs.map .special)

/-- No operand has been found yet, and these tokens have been taken. -/
structure Untouched (lead : List Token) (e : Expression) : Prop where
  progress : e.progress = { optional := true }
  object : e.object = ""
  nextOperand : e.nextOperand = true
  isLead : IsLead lead
  first : e.first = true → lead = []

theorem IsLead.append {lead : List Token} (h : IsLead lead) {sign : Special}
    (hsign : isLeadingSign sign = true) : IsLead (lead ++ [.special sign]) := by
  obtain ⟨signs, hsigns, hlead⟩ := h
  refine ⟨signs ++ [sign], ?_, ?_⟩
  · intro x hx
    obtain hx | hx := List.mem_append.1 hx
    · exact hsigns x hx
    · rwa [List.mem_singleton.1 hx]
  · obtain rfl | rfl := hlead
    · exact Or.inl (by simp)
    · exact Or.inr (by simp)

theorem feed_special_leaves {lead : List Token} {s : Session} {hs : s.unread ≤ n} (sign : Special)
    (h : Untouched lead e) :
    LeavesToken Untouched Started lead (.special sign) s
      ((feedSpecial sign l : Reading n Expression Verdict).run e s hs) := by
  obtain ⟨hprogress, hobject, hnext, hlead, hfirst⟩ := h
  have htake {operators : List Operator} (hsign : isLeadingSign sign = true) :
      Untouched (lead ++ [.special sign]) { e with operators, location := l, first := false } :=
    ⟨hprogress, hobject, hnext, hlead.append hsign, by rintro ⟨⟩⟩
  have hempty : ¬(!e.object.isEmpty) = true := by rw [hobject]; decide
  have hbefore (hcomma : sign ≠ .comma) (hnewline : sign ≠ .newline) :
      (feedSpecial sign l : Reading n Expression Verdict).run e s hs =
        (feedBeforeOperand sign l : Reading n Expression Verdict).run { e with first := false } s
          hs := by
    unfold feedSpecial
    rw [run_get_bind, if_neg hempty, if_neg (by simpa using hcomma), run_set_bind,
      if_neg (by simpa using hnewline), if_pos hnext]
  -- A comma is taken only as the first token, and of the signs only those that lead an operand.
  cases sign with
  | comma =>
      unfold feedSpecial
      rw [run_get_bind, if_neg hempty]
      cases hcomma : e.first with
      | true =>
          obtain rfl := hfirst hcomma
          have hq : Untouched [.special .comma] { e with location := l, first := false } :=
            ⟨hprogress, hobject, hnext, ⟨[], by rintro _ ⟨⟩, Or.inr rfl⟩, by rintro ⟨⟩⟩
          exact .take hq
      | false => exact .handBack _
  | newline =>
      unfold feedSpecial
      rw [run_get_bind, if_neg hempty]
      exact .handBack _
  | minus | plus | opening =>
      rw [hbefore (by rintro ⟨⟩) (by rintro ⟨⟩)]
      exact .take (htake rfl)
  | closing | reference | member | times | divided | comparison =>
      rw [hbefore (by rintro ⟨⟩) (by rintro ⟨⟩)]
      exact Progress.refuse_leaves hprogress

theorem feed_leaves {lead : List Token} (token : Token) (l : Location) (s : Session)
    (h : Untouched lead e) :
    LeavesToken Untouched Started lead token s
      (runOn (fun m => feed env (scan env m) token l) e s) := by
  have hstarts : e.Starts := Or.inr ⟨h.object, h.nextOperand⟩
  cases token with
  | int | float => exact .start (feed_number_started hstarts s (Nat.le_refl _))
  | name name => exact .start (feed_name_started name hstarts s (Nat.le_refl _))
  | keyword word => exact .start (feed_keyword_started word hstarts s (Nat.le_refl _))
  | special sign => exact feed_special_leaves sign h
  | comment | endOfText => exact Progress.refuse_leaves h.progress

theorem scan_leaves {s : Session} (h : Untouched [] e) :
    let r := runOn (fun n => scan env n) e s
    r.outcome = .ok () → r.reader.progress.empty = true →
      ∃ lead, IsLead (lead.map Prod.fst) ∧ s.Leaves env lead r.session := by
  intro r hok hempty
  have hscans : Scans env (fun _ => false) (fun m => feed env (scan env m)) e s
      ((scan env s.unread).run e s (Nat.le_refl _)) := by
    rw [scan]
    exact scans_scan_from (Nat.le_refl _)
  obtain ⟨taken, _, huntouched, hleaves⟩ := hscans.leaves Untouched Started
    (fun _ h _ _ _ => feed_started _ _ h) (fun _ _ h token l s _ => feed_leaves token l s h) hok
    (fun hstarted => Bool.false_ne_true (Eq.trans (Eq.symm hstarted) hempty)) h
  exact ⟨taken, huntouched.isLead, hleaves⟩

end Expression

/-- An optional reading that finds nothing leaves everything to whoever reads next, at its place. An
expression takes one comma and the signs in front of its first operand, a text argument one comma,
and a dropped argument nothing. -/
theorem optional_empty_leaves (env : Environment) (s : Session) :
    (∀ argument : Bool,
      let start : Expression := { argument, progress := { optional := true } }
      let r := runOn (fun n => Expression.scan env n) start s
      r.outcome = .ok () → r.reader.progress.empty = true →
        ∃ lead, Expression.IsLead (lead.map Prod.fst) ∧ s.Leaves env lead r.session) ∧
    (∀ lowerCase dropped : Bool,
      let start : TextArgument := { lowerCase, dropped, progress := { optional := true } }
      let r := runOn (fun _ => TextArgument.scan env) start s
      r.outcome = .ok () → r.reader.progress.empty = true →
        ∃ lead, (lead = [] ∨ ∃ l, lead = [(.special .comma, l)]) ∧ s.Leaves env lead r.session) ∧
    let start : DroppedArgument := { progress := { optional := true } }
    let r := runOn (fun _ => DroppedArgument.scan env) start s
    r.outcome = .ok () → r.reader.progress.empty = true → s.Leaves env [] r.session := by
  refine ⟨fun argument => ?_, fun lowerCase dropped => ?_, ?_⟩
  · exact Expression.scan_leaves ⟨rfl, rfl, rfl, ⟨[], by rintro _ ⟨⟩, Or.inl rfl⟩, fun _ => rfl⟩
  · exact TextArgument.scan_leaves ⟨rfl, rfl⟩
  · exact DroppedArgument.scan_leaves

/-- A line that has begun, with a comma ahead. -/
def commaAhead : Session :=
  { scanner := { rest := ", ) ; x\n".toList, modes := { ignoreSpecial := false } } }

theorem comma_ahead_leaves :
    (∃ lead, Expression.IsLead (lead.map Prod.fst) ∧ commaAhead.Leaves {} lead
        (runOn (fun n => Expression.scan {} n) { progress := { optional := true } }
          commaAhead).session) ∧
      (∃ lead, (lead = [] ∨ ∃ l, lead = [(.special .comma, l)]) ∧ commaAhead.Leaves {} lead
        (runOn (fun _ => TextArgument.scan {}) { progress := { optional := true } }
          commaAhead).session) ∧
      commaAhead.Leaves {} [] (runOn (fun _ => DroppedArgument.scan {})
        { progress := { optional := true } } commaAhead).session := by
  obtain ⟨hexpression, htext, hdropped⟩ := optional_empty_leaves {} commaAhead
  exact ⟨hexpression false (by decide +kernel) (by decide +kernel),
    htext false false (by decide +kernel) (by decide +kernel),
    hdropped (by decide +kernel) (by decide +kernel)⟩

/-- A minus sign without an operand is gone, although the reading counts as empty: whoever reads
next comes to the end of the line. -/
theorem lone_minus :
    let s : Session := { scanner := { rest := "-\n".toList, modes := { ignoreSpecial := false } } }
    let r := runOn (fun n => Expression.scan {} n)
      { argument := true, progress := { optional := true } } s
    r.outcome = .ok () ∧ r.reader.progress.empty = true ∧
      (s.pull {}).1 = .token (.special .minus) ⟨0, 1, "-"⟩ none ∧
      (r.session.pull {}).1 = .token (.special .newline) ⟨1, 0, "<newline>"⟩ none := by
  decide +kernel

end QuestScript
