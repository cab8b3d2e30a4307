/-!
# Edit distance

The least number of insertions, deletions and substitutions of one element that turn one list into
another. `levenshtein` is its definition; `boundedDistance` computes it row by row and gives up as
soon as a whole row lies above a bound, which settles that the distance does too.
-/

namespace FileShell.Suggestion

/-- The edit distance of two lists. -/
def levenshtein {α : Type} [DecidableEq α] : List α → List α → Nat
  | [], bs => bs.length
  | as, [] => as.length
  | a :: as, b :: bs =>
    min (min (levenshtein as (b :: bs) + 1) (levenshtein (a :: as) bs + 1))
      (levenshtein as bs + if a = b then 0 else 1)
termination_by as bs => as.length + bs.length

/-- The entries of a row after the first: `left` is the entry just written, `diagonal` the entry
above it, and `above` the rest of the row above. -/
def nextRow {α : Type} [DecidableEq α] (a : α) : List α → (left diagonal : Nat) → List Nat → List Nat
  | b :: bs, left, diagonal, up :: above =>
    let entry := min (min (left + 1) (up + 1)) (diagonal + if a = b then 0 else 1)
    entry :: nextRow a bs entry up above
  | _, _, _, _ => []

def rowMin (first : Nat) (row : List Nat) : Nat :=
  row.foldl min first

/-- The remaining rows of the table. `first :: row` is the row above; the answer is the last entry
of the last row, or the least entry of the first row that lies above the bound. -/
def rowsFrom {α : Type} [DecidableEq α] (bs : List α) (bound : Nat) :
    List α → (first : Nat) → List Nat → Nat
  | [], first, row => row.getLast?.getD first
  | a :: as, first, row =>
    let next := nextRow a bs (first + 1) first row
    let least := rowMin (first + 1) next
    if bound < least then least else rowsFrom bs bound as (first + 1) next

/-- The edit distance of two lists if it is at most `bound`, and otherwise some number above
`bound`. -/
def boundedDistance {α : Type} [DecidableEq α] (as bs : List α) (bound : Nat) : Nat :=
  match as, bs with
  | [], bs => bs.length
  | as, [] => as.length
  | as, bs => rowsFrom bs bound as 0 (List.range' 1 bs.length)

end FileShell.Suggestion
