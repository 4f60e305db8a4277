/-!
# Sets of characters given by ranges

A property of characters that only a table can give is written as a list of
ranges of code points, both ends included.
-/

namespace ScriptView.Text

/-- Whether a character lies in one of the ranges. -/
def inRanges (ranges : List (Nat × Nat)) (c : Char) : Bool :=
  ranges.any fun (first, last) => first ≤ c.toNat && c.toNat ≤ last

end ScriptView.Text
