import FileShell.Suggestion.Distance
import FileShell.Text.Offset

/-!
# Suggestions

The candidate that a mistyped or unfinished word most likely stands for: a candidate that the word
begins, the shortest if there are several, or else the nearest one within two edits.
-/

namespace FileShell.Suggestion

/-- The first element among those of least measure. -/
def firstLeast {α : Type} (measure : α → Nat) : List α → Option α
  | [] => none
  | x :: xs =>
    match firstLeast measure xs with
    | none => some x
    | some y => if measure x ≤ measure y then some x else some y

def begins (word candidate : String) : Bool :=
  word.toList.isPrefixOf candidate.toList

/-- The number of edits within which a candidate is near a word. -/
def reach : Nat := 2

/-- How many edits lead from the word to the candidate, exact up to `reach`. -/
def edits (word candidate : String) : Nat :=
  boundedDistance word.toList candidate.toList reach

/-- The candidate that the word most likely stands for. The empty word stands for none. -/
def best (word : String) (candidates : List String) : Option String :=
  if word = "" then none
  else
    match firstLeast (fun c => Text.byteLength c.toList) (candidates.filter (begins word)) with
    | some candidate => some candidate
    | none =>
      firstLeast (edits word)
        (candidates.filter fun c => decide (c ≠ "") && decide (edits word c ≤ reach))

end FileShell.Suggestion
