import QuestScript.Compile
import QuestScript.Proofs.Custody.Body

/-!
# Tokens that are put back

The scanner has room for one token that has been put back. A second one would replace the first,
which then gets lost; `Scanner.replaced` keeps such tokens. Since a token is given back only while
it is in hand, and then none waits (`slotCustody`), no token is ever replaced
(`put_back_replaces_nothing`).

There are two ways in which readers hand on a token without the scanner. A reader may start another
one on the token that it has just been offered; behind a pull no token waits
(`Session.pending_pull`). And a statement offers an object and the sign behind it to an expression
while it keeps the token that follows; these offers are never answered with a token to be put back
(`Expression.feed_name_responds`, `Expression.feed_special_responds`).
-/

namespace QuestScript

open Reading

/-! ### The token that waits -/

theorem Session.pending_pull (s : Session) (env : Environment) :
    (s.pull env).2.scanner.pending = none :=
  s.scanner.pending_pull env.extensions

/-! ### The custody of the slot -/

/-- No token has been replaced, and while a token is in hand no other one waits. -/
structure SlotKept (held : Bool) (s : Session) : Prop where
  replaced : s.scanner.replaced = []
  pending : held = true → s.scanner.pending = none

namespace SlotKept

variable {held : Bool} {s t : Session}

/-- The slot is all that matters. -/
theorem congr (h : SlotKept held s) (hpending : t.scanner.pending = s.scanner.pending)
    (hreplaced : t.scanner.replaced = s.scanner.replaced) : SlotKept held t :=
  ⟨hreplaced.trans h.replaced, fun hheld => hpending.trans (h.pending hheld)⟩

theorem release (h : SlotKept held s) : SlotKept false s :=
  ⟨h.replaced, by rintro ⟨⟩⟩

/-- While a token is in hand there is room for it in the slot. -/
theorem replaced_append (h : SlotKept true s) :
    s.scanner.replaced ++ s.scanner.pending.toList = [] := by
  rw [h.replaced, h.pending rfl]
  rfl

theorem pull (h : SlotKept held s) (env : Environment) : SlotKept true (s.pull env).2 :=
  ⟨(s.scanner.replaced_pull env.extensions).trans h.replaced, fun _ => s.pending_pull env⟩

end SlotKept

/-- The slot is empty whenever a token is in hand. -/
def slotCustody (env : Environment) : Custody env where
  holds := SlotKept
  broken _ := False
  tracked := False
  allowed _ _ := True
  defects _ := True
  congr h hpending hreplaced _ := h.congr hpending hreplaced
  broken_congr h _ := h
  broken_of_precedes h _ := h
  release h := h.release
  pull h := h.pull env
  putBack h _ _ := ⟨h.replaced_append, by rintro ⟨⟩⟩
  redeliver h _ := ⟨h.replaced_append, fun _ => rfl⟩
  declare _ h _ := Or.inr (h.congr rfl rfl)
  allowed_of_holds _ _ := trivial
  built h := Custody.built_of_untracked h
  regular := Custody.regular_or_all

/-- Readers that are in the custody of the slot replace no token. -/
theorem Custody.Keeps.replaced_eq_nil {env : Environment} {n : Nat} {σ α : Type} {p : σ}
    {x : Reading n σ α} {post : α → σ → Bool → Prop}
    (hx : (slotCustody env).Keeps x p false post) {s : Session} (hs : s.unread ≤ n)
    (h : s.scanner.replaced = []) : (x.run p s hs).session.scanner.replaced = [] := by
  have hleaves := hx s hs ⟨h, by rintro ⟨⟩⟩
  generalize x.run p s hs = r at hleaves
  cases hleaves with
  | broken hbroken => exact hbroken.elim
  | ok _ ht => exact ht.replaced
  | source _ ht => exact ht.replaced
  | stopped _ _ ht => exact ht.replaced

/-- No token that has been put back is ever replaced by another one: not while a script or console
input is compiled, and not while local variables are collected. Behind every pull the slot is empty,
so a reader may also be started on the token that was pulled. And when an object and the sign
behind it are offered to an expression, the expression puts neither of them back. -/
theorem put_back_replaces_nothing (env : Environment) (source : String) (log : Log)
    (locals : Locals) :
    (runOn (fun _ => ScriptFile.scan env) {}
      { scanner := .ofText source, log }).session.scanner.replaced = [] ∧
    (runOn (fun _ => Body.scan env) { ends := false }
      { scanner := .ofText (source ++ "\n"), log, locals }).session.scanner.replaced = [] ∧
    (runOn (fun _ => Outline.scan env) ()
      { scanner := .ofText source, log }).session.scanner.replaced = [] ∧
    (∀ s : Session, (s.pull env).2.scanner.pending = none) ∧
    ∀ (name : String) (l : Location) (isMember : Bool) (s : Session),
      let named := runOn (fun _ => Expression.feedName env name l) {} s
      let joined := runOn (fun _ => Expression.feedSpecial
        (if isMember then .member else .reference) l) named.reader named.session
      named.outcome = .ok .more ∧
        (joined.outcome = .ok .more ∨ joined.outcome = .error .source) := by
  refine ⟨?_, ?_, ?_, fun s => s.pending_pull env, fun name l isMember s => ?_⟩
  · exact (ScriptFile.scan_custody trivial).replaced_eq_nil _ rfl
  · exact (Body.scan_custody trivial .nil).replaced_eq_nil _ rfl
  · exact Outline.scan_custody.replaced_eq_nil _ rfl
  · obtain ⟨hmore, hoptional⟩ := Expression.feed_name_responds env l name s (Nat.le_refl _)
    refine ⟨hmore, Expression.feed_special_responds ?_ hoptional _ _⟩
    cases isMember
    · exact Or.inr rfl
    · exact Or.inl rfl

end QuestScript
