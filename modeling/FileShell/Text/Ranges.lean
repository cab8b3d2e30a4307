/-!
# Tables of code point ranges

A Unicode property is kept as a list of inclusive ranges in ascending order, and `inRanges` looks
a code point up in such a list.
-/

namespace FileShell.Text

/-- Whether `n` lies in one of the inclusive ranges. The ranges ascend, so the search stops at the
first one that begins after `n`. -/
def inRanges : List (Nat × Nat) → Nat → Bool
  | [], _ => false
  | (low, high) :: rest, n => if n < low then false else decide (n ≤ high) || inRanges rest n

end FileShell.Text
