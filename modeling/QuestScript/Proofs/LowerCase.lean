import QuestScript.Text.LowerCase

/-!
# Lower case stays as it is

A text in lower case is its own lower case (`Text.to_lower_to_lower`). All that has to be known
about the table of capital letters is that the small letters of each run of capital letters keep
clear of all the other runs (`Text.capital_runs_clear`).
-/

namespace QuestScript.Text

/-- The runs of all characters with a small form of their own, also of those that are not in the
table. -/
def allCapitals : List (Nat × Nat × Nat × Int) :=
  (0x41, 0x5a, 1, 32) :: (0x130, 0x130, 1, 0) :: (0x3a3, 0x3a3, 1, 0) :: capitalRuns

/-- The small letters of the first run are not in the second one. Runs that overlap go by twos. -/
def clears (run other : Nat × Nat × Nat × Int) : Bool :=
  Nat.blt (run.2.1 + run.2.2.2).toNat other.1 || (Nat.blt other.2.1 (run.1 + run.2.2.2).toNat ||
    (Nat.beq other.2.2.1 2 && ((Nat.beq run.2.2.1 2 || Nat.beq run.1 run.2.1) &&
      Nat.beq (((run.1 + run.2.2.2).toNat + other.1) % 2) 1)))

/-- Small letters are no capital letters. -/
theorem capital_runs_clear :
    (capitalRuns.all fun run => allCapitals.all fun other => clears run other) = true := by
  decide +kernel

theorem capital_runs_nonneg : ∀ run ∈ capitalRuns, 0 ≤ run.1 + run.2.2.2 := by
  decide +kernel

/-- The small letter of a character of the run is not in the other run. -/
theorem in_run_eq_false_of_clears {run other : Nat × Nat × Nat × Int} {n : Nat}
    (hnonneg : 0 ≤ run.1 + run.2.2.2) (hclears : clears run other = true)
    (h : inRun run.1 run.2.1 run.2.2.1 n = true) :
    inRun other.1 other.2.1 other.2.2.1 (n + run.2.2.2).toNat = false := by
  obtain ⟨low, high, step, distance⟩ := run
  obtain ⟨low', high', step', _⟩ := other
  simp only [inRun, Bool.and_eq_true, decide_eq_true_eq, beq_iff_eq] at h
  simp only [clears, Bool.or_eq_true, Bool.and_eq_true, Nat.blt_eq, Nat.beq_eq] at hclears
  dsimp only at hnonneg ⊢
  obtain ⟨⟨hlow, hhigh⟩, hstep⟩ := h
  rw [← Bool.not_eq_true]
  intro hother
  simp only [inRun, Bool.and_eq_true, decide_eq_true_eq, beq_iff_eq] at hother
  obtain ⟨⟨hlow', hhigh'⟩, hstep'⟩ := hother
  rcases hclears with habove | hbelow | ⟨rfl, rfl | rfl, hodd⟩
  · omega
  · omega
  · omega
  · omega

/-- The character is left alone by the mapping to lower case, wherever it stands. -/
def IsSmall (c : Char) : Prop :=
  c ≠ 'Σ' ∧ c ≠ 'İ' ∧ lowerChar c = c
  deriving Decidable

theorem ascii_small : ∀ n < 128, IsSmall (Char.ofNat n).toLower := by
  decide +kernel

/-- A character outside of all runs is small. -/
theorem is_small_of_forall {c : Char}
    (h : ∀ run ∈ allCapitals, inRun run.1 run.2.1 run.2.2.1 c.toNat = false) : IsSmall c := by
  have hsigma := h (0x3a3, 0x3a3, 1, 0) (by decide)
  have hdotted := h (0x130, 0x130, 1, 0) (by decide)
  refine ⟨?_, ?_, ?_⟩
  · rintro rfl
    exact absurd hsigma (by decide)
  · rintro rfl
    exact absurd hdotted (by decide)
  · unfold lowerChar
    split
    next hlt =>
      have hascii := h (0x41, 0x5a, 1, 32) (by decide)
      unfold Char.toLower
      split
      next hcapital =>
        have hlow : 0x41 ≤ c.toNat := UInt32.le_iff_toNat_le.1 hcapital.1
        have hhigh : c.toNat ≤ 0x5a := UInt32.le_iff_toNat_le.1 hcapital.2
        simp [inRun, hlow, hhigh, Nat.mod_one] at hascii
      · rfl
    next =>
      split
      next hfind =>
        have hmem := List.mem_of_find?_eq_some hfind
        have hrun := List.find?_some hfind
        cases (h _ (.tail _ (.tail _ (.tail _ hmem)))).symm.trans hrun
      · rfl

/-- The small letter of a character is small. -/
theorem is_small_lower_char {c : Char} (hsigma : c ≠ 'Σ') (hdotted : c ≠ 'İ') :
    IsSmall (lowerChar c) := by
  unfold lowerChar
  split
  next hlt =>
    have hsmall := ascii_small c.toNat hlt
    rwa [Char.ofNat_toNat] at hsmall
  next hlt =>
    split
    next low high step distance hfind =>
      have hmem := List.mem_of_find?_eq_some hfind
      have hrun := List.find?_some hfind
      by_cases hvalid : ((c.toNat : Int) + distance).toNat.isValidChar
      · refine is_small_of_forall fun other hother => ?_
        rw [Char.ofNat, dif_pos hvalid]
        have hclear := List.all_eq_true.1 (List.all_eq_true.1 capital_runs_clear _ hmem) _ hother
        exact in_run_eq_false_of_clears (capital_runs_nonneg _ hmem) hclear hrun
      · rw [Char.ofNat, dif_neg hvalid]
        decide
    next hfind =>
      refine ⟨hsigma, hdotted, ?_⟩
      rw [lowerChar, if_neg hlt, hfind]

/-- Lower case consists of small characters. -/
theorem is_small_of_mem_lower_from {before text : List Char} {c : Char}
    (h : c ∈ lowerFrom before text) : IsSmall c := by
  induction text generalizing before with
  | nil => cases h
  | cons first rest ih =>
      rw [lowerFrom] at h
      rcases List.mem_append.1 h with h | h
      · split at h
        · obtain rfl := List.mem_singleton.1 h
          split <;> decide +kernel
        split at h
        · rcases List.mem_cons.1 h with rfl | h
          · decide +kernel
          · obtain rfl := List.mem_singleton.1 h
            decide +kernel
        · obtain rfl := List.mem_singleton.1 h
          exact is_small_lower_char ‹_› ‹_›
      · exact ih h

/-- Small characters are left alone. -/
theorem lower_from_of_is_small {before text : List Char} (h : ∀ c ∈ text, IsSmall c) :
    lowerFrom before text = text := by
  induction text generalizing before with
  | nil => rfl
  | cons first rest ih =>
      obtain ⟨hsigma, hdotted, hlower⟩ := h first List.mem_cons_self
      rw [lowerFrom, ih fun c hc => h c (List.mem_cons_of_mem _ hc)]
      simp only [hsigma, hdotted, hlower, if_false, List.singleton_append]

/-- Lower case is its own lower case. -/
@[simp] theorem to_lower_to_lower (s : String) : toLower (toLower s) = toLower s := by
  simp only [toLower, String.toList_ofList]
  rw [lower_from_of_is_small fun c hc => is_small_of_mem_lower_from hc]

end QuestScript.Text
