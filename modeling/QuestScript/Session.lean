import QuestScript.Environment.Basic
import QuestScript.Locals
import QuestScript.Scanner.Basic

/-!
# Sessions

A session is everything that the readers of one compilation share: the scanner, the log, the
local variables and the literals. While a script is read, nothing of this is taken back
(`Session.Precedes`).
-/

namespace QuestScript

/-- What the readers of one compilation share. -/
structure Session where
  scanner : Scanner
  log : Log := {}
  locals : Locals := {}
  literals : Literals := {}
  deriving DecidableEq, Inhabited

namespace Session

/-- How much is left to read. -/
def unread (s : Session) : Nat :=
  s.scanner.unread

/-- Changes the scanner's modes. -/
def mapModes (s : Session) (change : Modes → Modes) : Session :=
  { s with scanner := s.scanner.mapModes change }

/-- Makes a token the next to be delivered. -/
def putBack (s : Session) (token : Token) (location : Location) : Session :=
  { s with scanner := s.scanner.putBack token location }

/-- Delivers a token once more, as if it had been put back and pulled. -/
def redeliver (s : Session) (token : Token) : Session :=
  { s with scanner := s.scanner.redeliver token }

/-- Returns to the given setting of tolerant names, if there is one. -/
def restoreNames (s : Session) (tolerant : Option Bool) : Session :=
  match tolerant with
  | none => s
  | some setting => s.mapModes fun modes => { modes with tolerantNames := setting }

/-- The next part of the text. What the scanner noticed goes to the log. -/
def pull (s : Session) (env : Environment) : Item × Session :=
  let pulled := s.scanner.pull env.extensions
  (pulled.item,
    { s with scanner := pulled.scanner, log := pulled.reports.foldl Log.enter s.log })

@[simp] theorem unread_map_modes (s : Session) (change : Modes → Modes) :
    (s.mapModes change).unread = s.unread := rfl

@[simp] theorem unread_restore_names (s : Session) (tolerant : Option Bool) :
    (s.restoreNames tolerant).unread = s.unread := by
  cases tolerant <;> rfl

theorem unread_put_back_le (s : Session) (token : Token) (location : Location) :
    (s.putBack token location).unread ≤ s.unread + 1 :=
  s.scanner.unread_put_back_le token location

theorem unread_redeliver_le (s : Session) (token : Token) :
    (s.redeliver token).unread ≤ s.unread :=
  s.scanner.unread_redeliver_le token

/-- Unless the text is at its end, a pull leaves less to read. -/
theorem unread_pull_lt (s : Session) (env : Environment) (h : (s.pull env).1 ≠ .ended) :
    (s.pull env).2.unread < s.unread :=
  s.scanner.unread_pull_lt env.extensions h

/-- A pull never leaves more to read. -/
theorem unread_pull_le (s : Session) (env : Environment) :
    (s.pull env).2.unread ≤ s.unread := by
  by_cases h : (s.pull env).1 = .ended
  · simp only [pull, unread] at h ⊢
    exact Nat.le_of_eq (congrArg Scanner.unread (s.scanner.scanner_pull_of_ended h))
  · exact Nat.le_of_lt (s.unread_pull_lt env h)

/-! ### What is never taken back -/

/-- The session can become the other one: there is no more to read, literals and local variables
are only added, and so are errors and the tokens that got lost. -/
structure Precedes (s t : Session) : Prop where
  unread : t.unread ≤ s.unread
  literals : s.literals.Within t.literals
  locals : s.locals.Within t.locals
  replaced : s.scanner.replaced <+: t.scanner.replaced
  log : s.log.Precedes t.log

namespace Precedes

variable {s t u : Session}

theorem refl (s : Session) : s.Precedes s :=
  ⟨Nat.le_refl _, .refl _, .refl _, List.prefix_refl _, .refl _⟩

theorem trans (h : s.Precedes t) (h' : t.Precedes u) : s.Precedes u :=
  ⟨Nat.le_trans h'.unread h.unread, h.literals.trans h'.literals, h.locals.trans h'.locals,
    h.replaced.trans h'.replaced, h.log.trans h'.log⟩

end Precedes

/-- A change of the log alone. -/
theorem precedes_of_log (s : Session) {log : Log} (h : s.log.Precedes log) :
    s.Precedes { s with log } :=
  ⟨Nat.le_refl _, .refl _, .refl _, List.prefix_refl _, h⟩

theorem precedes_map_modes (s : Session) (change : Modes → Modes) :
    s.Precedes (s.mapModes change) :=
  ⟨Nat.le_refl _, .refl _, .refl _, List.prefix_refl _, .refl _⟩

theorem precedes_restore_names (s : Session) (tolerant : Option Bool) :
    s.Precedes (s.restoreNames tolerant) := by
  cases tolerant with
  | none => exact .refl s
  | some setting => exact s.precedes_map_modes _

theorem precedes_redeliver (s : Session) (token : Token) : s.Precedes (s.redeliver token) :=
  ⟨s.unread_redeliver_le token, .refl _, .refl _, List.prefix_append _ _, .refl _⟩

theorem precedes_pull (s : Session) (env : Environment) : s.Precedes (s.pull env).2 :=
  ⟨s.unread_pull_le env, .refl _, .refl _, (s.scanner.replaced_pull env.extensions) ▸
    List.prefix_refl _, s.log.precedes_foldl_enter _⟩

/-- A token may be put back where something has been taken. -/
theorem Precedes.put_back {s t : Session} (h : s.Precedes t) (hlt : t.unread < s.unread)
    (token : Token) (location : Location) : s.Precedes (t.putBack token location) :=
  ⟨Nat.le_trans (t.unread_put_back_le token location) hlt, h.literals, h.locals,
    h.replaced.trans (List.prefix_append _ _), h.log⟩

end Session

end QuestScript
