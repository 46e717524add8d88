import QuestScript.Reading.Basic

/-!
# Scanning

To scan is to feed tokens to a reader until it has enough. The reader answers each token with a
verdict. Comments and blanks are passed over.

The main statement is in the type: `Reading.scan` is a total action, because each token that a
reader takes leaves less to read.
-/

namespace QuestScript

/-- The answer of a reader to a token. -/
inductive Verdict where
  /-- The reader wants the next token. -/
  | more
  /-- The reader has enough. -/
  | done
  /-- The reader has enough, and the given token is for whoever reads next. -/
  | handBack (token : Token)
  /-- The reader stops early, and the given token is for whoever reads next. -/
  | giveUp (token : Token) (reason : Abort)
  deriving DecidableEq, Inhabited

namespace Reading

variable {n : Nat} {σ : Type}

/-- Ends a scan at the end of the text, which some readers do not expect. -/
def finish (mayEnd : σ → Bool) (p : σ) (s : Session) : Result σ Unit :=
  if mayEnd p then ⟨.ok (), p, s⟩
  else ⟨.error .endOfFile, p, { s with log := s.log.endOfFile }⟩

/-- Feeds a reader until it has enough. The reader is offered each token as an action on what is
left behind the token. -/
def scanFrom (env : Environment) (mayEnd : σ → Bool)
    (feed : (m : Nat) → m < n → Token → Location → Reading m σ Verdict)
    (p : σ) (s : Session) (h : s.unread ≤ n) : Result σ Unit :=
  match hpull : s.pull env with
  | (.ended, s') => finish mayEnd p s'
  | (.blank, s') =>
    have hlt : s'.unread < s.unread := by
      have := s.unread_pull_lt env
      simp_all
    scanFrom env mayEnd feed p s' (by omega)
  | (.malformed location, s') =>
    ⟨.error .source, p,
      { s' with log := s'.log.error Problem.syntaxError.message location }⟩
  | (.token .endOfText _ _, s') => finish mayEnd p s'
  | (.token (.comment _) _ _, s') =>
    have hlt : s'.unread < s.unread := by
      have := s.unread_pull_lt env
      simp_all
    scanFrom env mayEnd feed p s' (by omega)
  | (.token token location tolerantAfter, s') =>
    have hlt : s'.unread < s.unread := by
      have := s.unread_pull_lt env
      simp_all
    let action := feed s'.unread (by omega) token location
    let r := action.run p s' (Nat.le_refl _)
    let after := r.session.restoreNames tolerantAfter
    have hle : after.unread ≤ s'.unread := by
      simpa [after] using action.unread_run_le p s' (Nat.le_refl _)
    match r.outcome with
    | .error reason => ⟨.error reason, r.reader, after⟩
    | .ok .done => ⟨.ok (), r.reader, after⟩
    | .ok (.handBack token) => ⟨.ok (), r.reader, after.putBack token location⟩
    | .ok (.giveUp token reason) => ⟨.error reason, r.reader, after.putBack token location⟩
    | .ok .more => scanFrom env mayEnd feed r.reader after (by omega)
termination_by s.unread
decreasing_by
  · exact hlt
  · exact hlt
  · exact Nat.lt_of_le_of_lt hle hlt

theorem precedes_finish (mayEnd : σ → Bool) (p : σ) (s : Session) :
    s.Precedes (finish mayEnd p s).session := by
  unfold finish
  split
  · exact .refl s
  · exact s.precedes_of_log s.log.precedes_end_of_file

/-- A scan takes nothing back. -/
theorem precedes_scan_from (env : Environment) (mayEnd : σ → Bool)
    (feed : (m : Nat) → m < n → Token → Location → Reading m σ Verdict)
    (p : σ) (s : Session) (h : s.unread ≤ n) :
    s.Precedes (scanFrom env mayEnd feed p s h).session := by
  have hs := s.precedes_pull env
  fun_induction scanFrom env mayEnd feed p s h with
  | case1 p s h s' hpull =>
    rw [hpull] at hs
    exact hs.trans (precedes_finish mayEnd p s')
  | case2 p s h s' hpull hlt ih =>
    rw [hpull] at hs
    exact hs.trans (ih (s'.precedes_pull env))
  | case3 p s h location s' hpull =>
    rw [hpull] at hs
    exact hs.trans (s'.precedes_of_log (s'.log.precedes_error _ _))
  | case4 p s h location tolerant s' hpull =>
    rw [hpull] at hs
    exact hs.trans (precedes_finish mayEnd p s')
  | case5 p s h text location tolerant s' hpull hlt ih =>
    rw [hpull] at hs
    exact hs.trans (ih (s'.precedes_pull env))
  | case6 p s h token location tolerant s' hend hcomment hpull hlt action r after hle reason hr =>
    rw [hpull] at hs
    exact (hs.trans (action.precedes_run p s' _)).trans (r.session.precedes_restore_names _)
  | case7 p s h token location tolerant s' hend hcomment hpull hlt action r after hle hr =>
    rw [hpull] at hs
    exact (hs.trans (action.precedes_run p s' _)).trans (r.session.precedes_restore_names _)
  | case8 p s h token location tolerant s' hend hcomment hpull hlt action r after hle back hr =>
    rw [hpull] at hs
    have hafter : s.Precedes after :=
      (hs.trans (action.precedes_run p s' _)).trans (r.session.precedes_restore_names _)
    exact hafter.put_back (Nat.lt_of_le_of_lt hle hlt) back location
  | case9 p s h token location tolerant s' hend hcomment hpull hlt action r after hle back reason
      hr =>
      rw [hpull] at hs
      have hafter : s.Precedes after :=
        (hs.trans (action.precedes_run p s' _)).trans (r.session.precedes_restore_names _)
      exact hafter.put_back (Nat.lt_of_le_of_lt hle hlt) back location
  | case10 p s h token location tolerant s' hend hcomment hpull hlt action r after hle hr ih =>
    rw [hpull] at hs
    have hafter : s.Precedes after :=
      (hs.trans (action.precedes_run p s' _)).trans (r.session.precedes_restore_names _)
    exact hafter.trans (ih (after.precedes_pull env))

/-- Feeds a reader until it has enough. -/
def scan (env : Environment) (mayEnd : σ → Bool)
    (feed : (m : Nat) → m < n → Token → Location → Reading m σ Verdict) : Reading n σ Unit where
  run := scanFrom env mayEnd feed
  precedes_run := precedes_scan_from env mayEnd feed

/-- Goes on behind the first token of a reader, which has to keep it: it cannot be left to anybody
else. -/
def follow (scan : Reading n σ Unit) : Verdict → Reading n σ Unit
  | .more => scan
  | .done | .handBack _ => pure ()
  | .giveUp _ reason => abort reason

/-- Starts a reader, possibly on a token that has been delivered already. A keyword is handed over,
and any other token counts as put back and pulled once more. -/
def starting (feed : Token → Location → Reading n σ Verdict) (scan : Reading n σ Unit)
    (first : Option (Token × Location)) : Reading n σ Unit :=
  match first with
  | none => scan
  | some (token, location) => do
    unless token.isKeyword do
      redeliver token
    follow scan (← feed token location)

/-- Passes over everything up to and including the end of the line. -/
def skipRest (env : Environment) : Reading n σ Unit := do
  let _ ← nested () (scan env (fun _ => true) fun _ _ token _ =>
    pure (if token = .special .newline then .done else .more))

/-- Passes over the rest of the line, unless its end has just been read. -/
def skipLine (env : Environment) : Reading n σ Unit := do
  unless ← look (·.scanner.lineStart) do
    skipRest env

/-- Confines a reported error to its line: the rest of the line is passed over. The value is
whether there was none. -/
def recoverLine (env : Environment) (x : Reading n σ Unit) : Reading n σ Bool := do
  match ← attempt x with
  | .ok () => pure true
  | .error .source =>
    skipLine env
    pure false
  | .error reason => abort reason

end Reading

end QuestScript
