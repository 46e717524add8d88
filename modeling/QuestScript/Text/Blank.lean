import QuestScript.Text.Runs

/-!
# White space

The characters with the Unicode property White_Space, which also end a run of stray special
characters and surround a number written as text.
-/

namespace QuestScript.Text

/-- The characters with the property White_Space. -/
def blankRuns : List Nat :=
  [9, 5, 18, 1, 100, 1, 26, 1, 5599, 1, 2431, 11, 29, 2, 5, 1, 47, 1, 4000, 1]

/-- The character is white space. -/
def isBlank (c : Char) : Bool :=
  inRuns blankRuns c.toNat

/-- The text without white space at its ends. -/
def trimBlank (cs : List Char) : List Char :=
  ((cs.dropWhile isBlank).reverse.dropWhile isBlank).reverse

end QuestScript.Text
