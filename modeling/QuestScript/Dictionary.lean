/-!
# Tables with keys

Tables that are looked up by a key are lists of pairs. A key that is put again loses its earlier
value.
-/

namespace QuestScript

variable {κ α : Type} [BEq κ]

/-- Sets the value of a key, in place of an earlier value. -/
def putEntry (table : List (κ × α)) (key : κ) (value : α) : List (κ × α) :=
  table.filter (·.1 != key) ++ [(key, value)]

section

variable [LawfulBEq κ] [DecidableEq κ]

theorem lookup_cons_eq_ite (table : List (κ × α)) (key : κ) (value : α) (other : κ) :
    List.lookup other ((key, value) :: table) =
      if other = key then some value else table.lookup other := by
  by_cases h : other = key
  · simp [h]
  · rw [List.lookup_cons, beq_eq_false_iff_ne.2 h, if_neg h]

/-- The key has its new value, and every other key the value that it had. -/
theorem lookup_put_entry (table : List (κ × α)) (key : κ) (value : α) (other : κ) :
    (putEntry table key value).lookup other =
      if other = key then some value else table.lookup other := by
  induction table with
  | nil => exact lookup_cons_eq_ite [] key value other
  | cons entry table ih =>
      obtain ⟨name, old⟩ := entry
      unfold putEntry at ih ⊢
      by_cases hname : name = key
      · rw [List.filter_cons_of_neg (by simp [hname]), ih, hname, lookup_cons_eq_ite]
        split <;> rfl
      · rw [List.filter_cons_of_pos (by simp [hname]), List.cons_append, lookup_cons_eq_ite, ih,
          lookup_cons_eq_ite]
        by_cases hother : other = name
        · simp [hother, hname]
        · rw [if_neg hother, if_neg hother]

end

end QuestScript
