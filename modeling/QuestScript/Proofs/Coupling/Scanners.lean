import QuestScript.Proofs.Coupling.Places

/-!
# Couplings made from scanners

Two scanners are in step under a relation if they deliver the same tokens and the relation holds
again behind each of them (`Scanner.InStep`). The main definition is `scannerCoupling`: runs whose
scanners are in step keep in step, and they add the same diagnostics to their logs at whatever
places. Readers go back to the spelling of keywords and integers only, so that the scanners may see
names spelled in different ways (`Token.SpelledAlike`). The case of one text at two places is
`placesCoupling`.
-/

namespace QuestScript

open Coupling

/-- Keywords and integers are spelled in the same way. It is given which places are good for the
other tokens. -/
def Token.SpelledUpTo (spot : Location → Location → Prop) : Token → Location → Location → Prop
  | .keyword _, l, l' | .int _, l, l' => l'.literal = l.literal
  | _, l, l' => spot l l'

/-- Readers cannot tell the token at one place from the token at the other. -/
abbrev Token.SpelledAlike : Token → Location → Location → Prop :=
  Token.SpelledUpTo fun _ _ => True

theorem Token.SpelledSame.alike {l l' : Location} (token : Token) (h : token.SpelledSame l l') :
    token.SpelledAlike l l' := by
  cases token with
  | keyword | int => exact h
  | _ => trivial

theorem Token.spelled_up_to_literal :
    Token.SpelledUpTo (fun l l' => l'.literal = l.literal) = Token.SpelledSame := by
  funext token l l'
  cases token <;> rfl

/-- A relation between scanners that deliver the same and are kept in it by all that readers do. -/
structure Scanner.InStep (registry : Registry) (spot : Location → Location → Prop)
    (scanners : Scanner → Scanner → Prop) : Prop where
  spot_of_literal : ∀ {l l' : Location}, l'.literal = l.literal → spot l l'
  lineStart : ∀ {s t}, scanners s t → t.lineStart = s.lineStart
  mapModes : ∀ {s t change}, scanners s t → Modes.IsPlain change →
    scanners (s.mapModes change) (t.mapModes change)
  putBack : ∀ {s t token l l'}, scanners s t → Token.SpelledUpTo spot token l l' →
    scanners (s.putBack token l) (t.putBack token l')
  redeliver : ∀ {s t}, scanners s t → ∀ token, scanners (s.redeliver token) (t.redeliver token)
  item : ∀ {s t}, scanners s t →
    (s.pull registry).item.Alike (Token.SpelledUpTo spot) (t.pull registry).item
  pull : ∀ {s t}, scanners s t → scanners (s.pull registry).scanner (t.pull registry).scanner
  reports : ∀ {s t}, scanners s t →
    List.Forall₂ Report.Alike (s.pull registry).reports (t.pull registry).reports

/-- The scanners have the same text ahead. A name that has been put back may be spelled in two
ways. -/
abbrev Scanner.Alongside (s t : Scanner) : Prop :=
  s.Beside Token.SpelledAlike (fun text text' => text' = text) t

theorem Scanner.Alongside.pull {s t : Scanner} (h : s.Alongside t) (registry : Registry) :
    Scanner.Beside.Brings Token.SpelledAlike (fun text text' => text' = text) (s.pull registry)
      (t.pull registry) :=
  h.pull_of_same fun token _ _ => Token.SpelledSame.alike token

/-- Scanners side by side are in step, if they bring the same. -/
theorem Scanner.Beside.in_step {registry : Registry} {spot : Location → Location → Prop}
    {texts : List Char → List Char → Prop}
    (hspot : ∀ {l l' : Location}, l'.literal = l.literal → spot l l')
    (hpull : ∀ {s t : Scanner}, s.Beside (Token.SpelledUpTo spot) texts t →
      Brings (Token.SpelledUpTo spot) texts (s.pull registry) (t.pull registry)) :
    InStep registry spot (Beside (Token.SpelledUpTo spot) texts) where
  spot_of_literal := hspot
  lineStart h := h.lineStart
  mapModes h _ := h.map_modes _
  putBack h hl := h.put_back hl
  redeliver h token := h.redeliver token
  item h := (hpull h).item
  pull h := (hpull h).scanner
  reports h := (hpull h).reports

theorem Scanner.Alongside.in_step (registry : Registry) :
    Scanner.InStep registry (fun _ _ => True) Scanner.Alongside :=
  Beside.in_step (fun _ => trivial) fun h => Alongside.pull h registry

theorem Scanner.Displaced.in_step (registry : Registry) :
    Scanner.InStep registry (fun l l' => l'.literal = l.literal) Scanner.Displaced := by
  have hspelled := Token.spelled_up_to_literal
  unfold Displaced
  rw [← hspelled]
  refine Beside.in_step id fun h => ?_
  rw [hspelled] at h ⊢
  exact Displaced.pull h registry

/-- The session with the given text ahead. -/
def Session.ahead (s : Session) (text : List Char) : Session :=
  { s with scanner := { s.scanner with rest := text, pending := none } }

/-- The scanners correspond, and since the logs were `base` and `base'` the same has been
recorded. -/
structure Session.Paired (scanners : Scanner → Scanner → Prop) (base base' : Log)
    (s t : Session) : Prop where
  scanner : scanners s.scanner t.scanner
  locals : t.locals = s.locals
  literals : t.literals = s.literals
  log : Log.AlikeSince base base' s.log t.log

namespace Session.Paired

variable {scanners : Scanner → Scanner → Prop} {base base' : Log} {s t : Session}

theorem literals_alike (h : s.Paired scanners base base' t) :
    s.literals.Alike .same t.literals := by
  rw [h.literals]
  exact .refl _ _

theorem warning (h : s.Paired scanners base base' t) {problem problem' : Problem}
    (hproblem : problem.Alike .same problem') (l l' : Location) :
    Paired scanners base base' { s with log := s.log.warning problem.message l }
      { t with log := t.log.warning problem'.message l' } := by
  obtain rfl := hproblem.eq
  exact ⟨h.scanner, h.locals, h.literals, h.log.warning _ _ _⟩

theorem error (h : s.Paired scanners base base' t) (message : String) (l l' : Location) :
    Paired scanners base base' { s with log := s.log.error message l }
      { t with log := t.log.error message l' } :=
  ⟨h.scanner, h.locals, h.literals, h.log.error _ _ _⟩

theorem downgrade (h : s.Paired scanners base base' t) (setting : Bool) :
    (s.downgrade setting).Paired scanners base base' (t.downgrade setting) :=
  ⟨h.scanner, h.locals, h.literals, h.log.downgraded setting⟩

end Session.Paired

/-! What all couplings of runs with the same spelling have in common. -/

namespace Coupling

theorem alike_of_literal {l l' : Location} (h : l'.literal = l.literal) :
    Likeness.same.rel l.literal l'.literal :=
  h

theorem literal_start : ({} : Location).literal = ({} : Location).literal :=
  rfl

theorem spot_of_literal {l l' : Location} (h : l'.literal = l.literal) : l'.literal = l.literal :=
  h

theorem reports_all {problem : Problem} (_ : problem.isIncomplete = true) : True :=
  trivial

theorem stops_all (_ : Defect) : True :=
  trivial

theorem never_broken {s t : Session} (h : False) (_ : s.Precedes t) : False :=
  h

end Coupling

/-- The coupling of sessions whose scanners are in step. Diagnostics may stand at any places. -/
def Coupling.ofScanners (env : Environment) (base base' : Log)
    {spot : Location → Location → Prop} {scanners : Scanner → Scanner → Prop}
    (hscanners : Scanner.InStep env.extensions spot scanners) :
    Coupling env fun l l' => l'.literal = l.literal where
  rel := Session.Paired scanners base base'
  lost := Session.Paired scanners base base'
  broken _ := False
  stops _ := True
  reports _ := True
  strict := False
  texts := .same
  spot := spot
  literal_alike := @alike_of_literal
  place_start := literal_start
  spot_of_place := hscanners.spot_of_literal
  reports_of_isIncomplete := @reports_all
  lost_of_rel := id
  stops_internal := stops_all
  broken_of_precedes := @never_broken
  locals_eq h := h.locals
  literals_alike h := h.literals_alike
  lineStart_eq h := hscanners.lineStart h.scanner
  setLocals h _ := ⟨h.scanner, rfl, h.literals, h.log⟩
  setLiterals h _ _ hpool := ⟨h.scanner, h.locals, hpool.eq, h.log⟩
  mapModes h _ hchange := ⟨hscanners.mapModes h.scanner hchange, h.locals, h.literals, h.log⟩
  lost_mapModes h _ hchange :=
    ⟨hscanners.mapModes h.scanner hchange, h.locals, h.literals, h.log⟩
  warning h _ _ _ hproblem := Or.inr (h.warning hproblem _ _)
  error _ h _ := Or.inr (h.error _ _ _)
  fail h _ _ := Or.inr ⟨trivial, h.error _ _ _⟩
  broken_of_strict h := h.elim
  endOfFile h := Or.inr ⟨trivial, h.scanner, h.locals, h.literals, h.log.record _ _ _ _⟩

variable {env : Environment} {base base' : Log} {spot : Location → Location → Prop}
  {scanners : Scanner → Scanner → Prop} {hscanners : Scanner.InStep env.extensions spot scanners}

theorem Coupling.at_of_scanners_iff {token : Token} {l l' : Location} :
    (ofScanners env base base' hscanners).At token l l' ↔ token.SpelledUpTo spot l l' := by
  cases token <;> rfl

/-- Sessions whose scanners are in step pull the same. -/
theorem Session.Paired.pull (hscanners : Scanner.InStep env.extensions spot scanners)
    {s t : Session} (h : s.Paired scanners base base' t) :
    PullsAlike .same (ofScanners env base base' hscanners).At (Session.Paired scanners base base')
      (fun s t => False ∨ True ∧ s.Paired scanners base base' t) (s.pull env) (t.pull env) := by
  have hrel : (s.pull env).2.Paired scanners base base' (t.pull env).2 :=
    ⟨hscanners.pull h.scanner, h.locals, h.literals,
      h.log.foldl_enter (hscanners.reports h.scanner)⟩
  have hitem : (s.pull env).1.Alike (Token.SpelledUpTo spot) (t.pull env).1 :=
    hscanners.item h.scanner
  generalize s.pull env = r at hitem hrel
  generalize t.pull env = r' at hitem hrel
  obtain ⟨item, s⟩ := r
  obtain ⟨item', t⟩ := r'
  cases hitem with
  | blank => exact .blank hrel
  | token token tolerantAfter hl =>
      exact .token (.refl _ token) (at_of_scanners_iff.2 hl) hrel
  | malformed l l' => exact .malformed (Or.inr ⟨trivial, hrel.error _ _ _⟩)
  | ended => exact .ended hrel

/-- The coupling of sessions whose scanners are in step, where tokens are pulled and put back. -/
def scannerCoupling (env : Environment) (base base' : Log)
    {spot : Location → Location → Prop} {scanners : Scanner → Scanner → Prop}
    (hscanners : Scanner.InStep env.extensions spot scanners) :
    ScanCoupling env fun l l' => l'.literal = l.literal where
  toCoupling := .ofScanners env base base' hscanners
  broken_putBack h _ _ := h
  redeliver {s t} h _ _ htoken := by
    obtain rfl := htoken.eq
    exact ⟨hscanners.redeliver h.scanner _, h.locals, h.literals, h.log⟩
  putBack h hl htoken := by
    obtain rfl := htoken.eq
    exact ⟨hscanners.putBack h.scanner (at_of_scanners_iff.1 hl), h.locals, h.literals, h.log⟩
  pull h := Or.inr (Or.inl (Session.Paired.pull hscanners h))

/-- Lines with errors are left in step. -/
theorem scanner_coupling_recovers : (scannerCoupling env base base' hscanners).Recovers :=
  ⟨id, fun _ => trivial⟩

theorem scanner_coupling_tolerates :
    ∃ C', (scannerCoupling env base base' hscanners).Tolerates C' := by
  refine ⟨scannerCoupling env base base' hscanners, fun h => h.downgrade true, ?_, fun _ h => h,
    fun _ _ => trivial⟩
  intro s t s' t' h h'
  have h := h.log.downgrade
  rw [h]
  exact h'.downgrade _

/-- What two runs leave whose scanners are in step. -/
theorem scanner_coupling_ends {σ τ α : Type} {ρ : σ → τ → Prop} {r : Result σ α} {r' : Result τ α}
    (h : (scannerCoupling env base base' hscanners).Ends ρ Eq r r') :
    r'.outcome = r.outcome ∧ ρ r.reader r'.reader ∧
      r.session.Paired scanners base base' r'.session := by
  cases h with
  | broken h => exact h.elim
  | ok ha hp hrel => exact ⟨congrArg Except.ok ha.symm, hp, hrel⟩
  | stopped _ hp hrel => exact ⟨rfl, hp, hrel⟩

/-- The readers that two runs leave correspond. -/
theorem scanner_coupling_readers {σ τ α β : Type} {ρ : σ → τ → Prop} {V : α → β → Prop}
    {r : Result σ α} {r' : Result τ β}
    (h : (scannerCoupling env base base' hscanners).Ends ρ V r r') :
    ρ r.reader r'.reader := by
  cases h with
  | broken h => exact h.elim
  | ok _ hp _ => exact hp
  | stopped _ hp _ => exact hp

/-- If one of two runs wants more, so does the other. -/
theorem scanner_coupling_more {σ τ : Type} {ρ : σ → τ → Prop} {r : Result σ Verdict}
    {r' : Result τ Verdict} {l l' : Location}
    (h : (scannerCoupling env base base' hscanners).Ends ρ
      ((scannerCoupling env base base' hscanners).Agrees l l') r r')
    (hmore : r.outcome = .ok .more) : r'.outcome = .ok .more := by
  cases h with
  | broken h => exact h.elim
  | ok hverdict _ _ =>
      cases hmore
      cases hverdict
      rfl
  | stopped => cases hmore

/-! ### The same text at two places -/

/-- The sessions have the same text ahead, and since the logs were `base` and `base'` the same has
been recorded. -/
abbrev Session.Displaced (base base' : Log) (s t : Session) : Prop :=
  s.Paired Scanner.Displaced base base' t

theorem Session.Displaced.refl (s : Session) : s.Displaced s.log s.log s where
  scanner := by
    refine ⟨rfl, ?_, rfl, rfl⟩
    cases s.scanner.pending with
    | none => exact .none
    | some waiting => exact .some ⟨rfl, rfl⟩
  locals := rfl
  literals := rfl
  log := .refl rfl rfl rfl

/-- The same text at two places. -/
abbrev placesCoupling (env : Environment) (base base' : Log) :
    ScanCoupling env fun l l' => l'.literal = l.literal :=
  scannerCoupling env base base' (Scanner.Displaced.in_step env.extensions)

end QuestScript
