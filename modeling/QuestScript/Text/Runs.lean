/-!
# Sets of characters as runs

A set of characters is listed by the lengths of its runs: how many code points are left out, how
many then belong to the set, how many are left out again, and so on.
-/

namespace QuestScript.Text

/-- The code point `n` lies in one of the runs of a set, which are listed from the first code point
on. -/
def inRuns : List Nat → Nat → Bool
  | outside :: inside :: runs, n =>
    outside ≤ n && (n < outside + inside || inRuns runs (n - outside - inside))
  | _, _ => false

end QuestScript.Text
