import FileShell.Proofs.Suggestion.Distance

/-!
# The table of distances

`boundedDistance` fills a table with the distances of beginnings: `distanceRow` is the row for a
beginning of the first list, and `nextRow` makes the next one of it (`nextRow_distanceRow`). `table`
holds all rows, and `giveUp?` finds the first one that lies above the bound. An entry of each row
lies on the way to the last entry (`rowMin_le_levenshtein`), so giving up there does no harm. Main
statement: `boundedDistance_exact`.
-/

namespace FileShell.Suggestion

variable {α : Type} [DecidableEq α]

/-- The distances of a list from the beginnings of a text that are longer than `start`, where the
text goes on with `bs`. -/
def distanceRow (as : List α) : (start bs : List α) → List Nat
  | _, [] => []
  | start, b :: bs => levenshtein as (start ++ [b]) :: distanceRow as (start ++ [b]) bs

theorem distanceRow_nil (start bs : List α) :
    distanceRow [] start bs = List.range' (start.length + 1) bs.length := by
  induction bs generalizing start with
  | nil => rfl
  | cons b bs ih =>
    rw [distanceRow, ih, levenshtein_nil_left, List.length_append]
    rfl

/-- The row for a list makes the row for the list with one more element. -/
theorem nextRow_distanceRow (as : List α) (a : α) (start bs : List α) :
    nextRow a bs (levenshtein (as ++ [a]) start) (levenshtein as start)
      (distanceRow as start bs) = distanceRow (as ++ [a]) start bs := by
  induction bs generalizing start with
  | nil => rfl
  | cons b bs ih => rw [distanceRow, nextRow, distanceRow, ← levenshtein_concat_concat, ih]

theorem getLast?_distanceRow (as start bs : List α) :
    (distanceRow as start bs).getLast?.getD (levenshtein as start) =
      levenshtein as (start ++ bs) := by
  induction bs generalizing start with
  | nil => simp [distanceRow]
  | cons b bs ih =>
    rw [distanceRow, List.getLast?_cons, Option.getD_some, ih, List.append_assoc]
    rfl

theorem mem_distanceRow (as start : List α) {bs mid : List α} (hmid : mid <+: bs)
    (hne : mid ≠ []) : levenshtein as (start ++ mid) ∈ distanceRow as start bs := by
  induction bs generalizing start mid with
  | nil => exact absurd (List.prefix_nil.mp hmid) hne
  | cons b bs ih =>
    cases mid with
    | nil => exact absurd rfl hne
    | cons c mid =>
      obtain ⟨rfl, hrest⟩ := List.cons_prefix_cons.mp hmid
      rw [distanceRow, List.mem_cons]
      cases mid with
      | nil => exact Or.inl rfl
      | cons d mid =>
        have hmem := ih (start ++ [c]) hrest (List.cons_ne_nil d mid)
        rw [List.append_assoc] at hmem
        exact Or.inr hmem

theorem rowMin_le (first : Nat) (row : List Nat) :
    ∀ entry ∈ first :: row, rowMin first row ≤ entry := by
  induction row generalizing first with
  | nil => simp [rowMin]
  | cons next row ih =>
    have hleast : rowMin (min first next) row ≤ min first next :=
      ih (min first next) _ List.mem_cons_self
    intro entry hentry
    change rowMin (min first next) row ≤ entry
    rcases List.mem_cons.mp hentry with rfl | hentry
    · omega
    · rcases List.mem_cons.mp hentry with rfl | hentry
      · omega
      · exact ih (min first next) entry (List.mem_cons_of_mem _ hentry)

/-- The way to the last entry of the table crosses each row. -/
theorem rowMin_le_levenshtein (as more bs : List α) :
    rowMin (levenshtein as []) (distanceRow as [] bs) ≤ levenshtein (as ++ more) bs := by
  obtain ⟨m, mid, hle, hprefix, hedited⟩ := (edited_levenshtein (as ++ more) bs).exists_of_append
  have hmid : levenshtein as mid ∈ levenshtein as [] :: distanceRow as [] bs := by
    by_cases hne : mid = []
    · rw [hne]
      exact List.mem_cons_self
    · exact List.mem_cons_of_mem _ (mem_distanceRow as [] hprefix hne)
  exact ((rowMin_le _ _ _ hmid).trans hedited.levenshtein_le).trans hle

/-- The rows of a table below a row, each with its first entry apart. -/
def rowsBelow (bs : List α) : List α → (first : Nat) → List Nat → List (Nat × List Nat)
  | [], _, _ => []
  | a :: as, first, row =>
    let next := nextRow a bs (first + 1) first row
    (first + 1, next) :: rowsBelow bs as (first + 1) next

/-- The rows of the table of two lists below the one for the empty list, when none is left out. -/
def table (as bs : List α) : List (Nat × List Nat) :=
  rowsBelow bs as 0 (List.range' 1 bs.length)

/-- What is found if a table is given up: the least entry of the first row that lies above the bound.
The table is filled to the end if there is no such row. -/
def giveUp? (bound : Nat) (rows : List (Nat × List Nat)) : Option Nat :=
  (rows.map fun (first, row) => rowMin first row).find? fun least => bound < least

theorem bound_lt_of_giveUp? {bound least : Nat} {rows : List (Nat × List Nat)}
    (h : giveUp? bound rows = some least) : bound < least := by
  rw [giveUp?] at h
  simpa using List.find?_some h

theorem giveUp?_le {bound limit : Nat} {rows : List (Nat × List Nat)}
    (h : ∀ row ∈ rows, rowMin row.1 row.2 ≤ limit) {least : Nat}
    (hleast : giveUp? bound rows = some least) : least ≤ limit := by
  obtain ⟨row, hrow, rfl⟩ := List.mem_map.mp (List.mem_of_find?_eq_some hleast)
  exact h row hrow

/-- Below the row for a list stands the row for the list with one more element. -/
theorem rowsBelow_cons (bs as : List α) (a : α) (more : List α) :
    rowsBelow bs (a :: more) (levenshtein as []) (distanceRow as [] bs) =
      (levenshtein (as ++ [a]) [], distanceRow (as ++ [a]) [] bs) ::
        rowsBelow bs more (levenshtein (as ++ [a]) []) (distanceRow (as ++ [a]) [] bs) := by
  have hfirst : levenshtein as [] + 1 = levenshtein (as ++ [a]) [] := by simp
  simp only [rowsBelow, hfirst, nextRow_distanceRow]

/-- From the row for a beginning of the first list, the remaining rows lead to the distance of the
whole list, unless they are given up. -/
theorem rowsFrom_eq (bs : List α) (bound : Nat) (as more : List α) :
    rowsFrom bs bound more (levenshtein as []) (distanceRow as [] bs) =
      (giveUp? bound (rowsBelow bs more (levenshtein as []) (distanceRow as [] bs))).getD
        (levenshtein (as ++ more) bs) := by
  -- Induction on the elements for which there are no rows yet.
  induction more generalizing as with
  | nil =>
    rw [rowsFrom, getLast?_distanceRow, List.append_nil]
    rfl
  | cons a more ih =>
    have hfirst : levenshtein as [] + 1 = levenshtein (as ++ [a]) [] := by simp
    have hmore : as ++ a :: more = as ++ [a] ++ more := by simp
    simp only [rowsFrom, hfirst, nextRow_distanceRow]
    rw [rowsBelow_cons, giveUp?, List.map_cons, List.find?_cons, hmore, ih (as ++ [a])]
    split
    · next hgive => rw [decide_eq_true hgive, Option.getD_some]
    · next hgive =>
      rw [decide_eq_false hgive]
      rfl

/-- No row lies above the distance. -/
theorem rowMin_le_of_mem_rowsBelow (bs as more : List α) :
    ∀ row ∈ rowsBelow bs more (levenshtein as []) (distanceRow as [] bs),
      rowMin row.1 row.2 ≤ levenshtein (as ++ more) bs := by
  induction more generalizing as with
  | nil =>
    intro row hrow
    cases hrow
  | cons a more ih =>
    have hmore : as ++ a :: more = as ++ [a] ++ more := by simp
    intro row hrow
    rw [rowsBelow_cons] at hrow
    rw [hmore]
    rcases List.mem_cons.mp hrow with rfl | hrow
    · exact rowMin_le_levenshtein (as ++ [a]) more bs
    · exact ih (as ++ [a]) row hrow

theorem table_eq_rowsBelow (as bs : List α) :
    table as bs = rowsBelow bs as (levenshtein ([] : List α) []) (distanceRow [] [] bs) := by
  rw [distanceRow_nil, levenshtein_nil_left]
  rfl

theorem rowMin_le_of_mem_table {as bs : List α} :
    ∀ row ∈ table as bs, rowMin row.1 row.2 ≤ levenshtein as bs := by
  rw [table_eq_rowsBelow]
  exact rowMin_le_of_mem_rowsBelow bs [] as

theorem boundedDistance_nil_right (as : List α) (bound : Nat) :
    boundedDistance as [] bound = as.length := by
  cases as with
  | nil => rfl
  | cons a as => rfl

/-- What is found is the distance, unless the table is given up. -/
theorem boundedDistance_eq {as bs : List α} (h : bs ≠ []) (bound : Nat) :
    boundedDistance as bs bound =
      (giveUp? bound (table as bs)).getD (levenshtein as bs) := by
  unfold boundedDistance
  split
  · exact (levenshtein_nil_left _).symm
  · exact absurd rfl h
  · have hrows := rowsFrom_eq bs bound [] as
    rw [← table_eq_rowsBelow, distanceRow_nil, levenshtein_nil_left, List.nil_append] at hrows
    exact hrows

/-- The table is not given up while the distance is within the bound. -/
theorem giveUp?_table_eq_none {as bs : List α} {bound : Nat} (h : levenshtein as bs ≤ bound) :
    giveUp? bound (table as bs) = none := by
  rw [Option.eq_none_iff_forall_ne_some]
  intro least hleast
  have hlt := bound_lt_of_giveUp? hleast
  have hle := giveUp?_le rowMin_le_of_mem_table hleast
  omega

/-- What may be found for a distance: the distance itself or, above the bound, a number that is not
above the distance. -/
def Estimates (bound distance found : Nat) : Prop :=
  found = distance ∨ bound < found ∧ found ≤ distance

/-- Up to the bound the distance is found exactly, and above it not missed. -/
theorem estimates_boundedDistance (as bs : List α) (bound : Nat) :
    Estimates bound (levenshtein as bs) (boundedDistance as bs bound) := by
  by_cases hbs : bs = []
  · left
    rw [hbs, levenshtein_nil_right, boundedDistance_nil_right]
  · rw [boundedDistance_eq hbs]
    cases hgive : giveUp? bound (table as bs) with
    | none => exact Or.inl rfl
    | some least =>
      exact Or.inr ⟨bound_lt_of_giveUp? hgive, giveUp?_le rowMin_le_of_mem_table hgive⟩

theorem boundedDistance_le_iff {as bs : List α} {bound : Nat} :
    boundedDistance as bs bound ≤ bound ↔ levenshtein as bs ≤ bound := by
  rcases estimates_boundedDistance as bs bound with heq | ⟨hlt, hle⟩
  · rw [heq]
  · omega

theorem boundedDistance_eq_of_le {as bs : List α} {bound : Nat} (h : levenshtein as bs ≤ bound) :
    boundedDistance as bs bound = levenshtein as bs := by
  rcases estimates_boundedDistance as bs bound with heq | ⟨hlt, hle⟩
  · exact heq
  · omega

/-- The distance of two lists is the least number of insertions, deletions and replacements of one
element that turn the first list into the second. If it is within the bound, just that is found;
otherwise a number that is above the bound and not above the distance. What is found differs from
the distance only if the table is given up, where an empty list needs no table; and the table is
never given up if neither list is longer than the bound. -/
theorem boundedDistance_exact (as bs : List α) (bound : Nat) :
    IsLeast {n | Edited n as bs} (levenshtein as bs) ∧
    (levenshtein as bs ≤ bound → boundedDistance as bs bound = levenshtein as bs) ∧
    (bound < levenshtein as bs →
      bound < boundedDistance as bs bound ∧ boundedDistance as bs bound ≤ levenshtein as bs) ∧
    (bs ≠ [] → boundedDistance as bs bound =
      (giveUp? bound (table as bs)).getD (levenshtein as bs)) ∧
    (max as.length bs.length ≤ bound →
      giveUp? bound (table as bs) = none ∧ boundedDistance as bs bound = levenshtein as bs) := by
  refine ⟨isLeast_levenshtein as bs, boundedDistance_eq_of_le, ?_,
    fun hbs => boundedDistance_eq hbs bound, ?_⟩
  · intro hlt
    rcases estimates_boundedDistance as bs bound with heq | hbetween
    · rw [heq]
      exact ⟨hlt, Nat.le_refl _⟩
    · exact hbetween
  · intro hlen
    have hle : levenshtein as bs ≤ bound := (levenshtein_le_max as bs).trans hlen
    exact ⟨giveUp?_table_eq_none hle, boundedDistance_eq_of_le hle⟩

/-- Under a bound of one the table of two distant words is given up, and under one that is not below
their lengths that of two near ones is filled. -/
theorem boundedDistance_exact_given_up :
    (1 < boundedDistance "lösch".toList "copy".toList 1 ∧
      boundedDistance "lösch".toList "copy".toList 1 ≤ levenshtein "lösch".toList "copy".toList) ∧
    boundedDistance "cöpi".toList "copy".toList 4 = levenshtein "cöpi".toList "copy".toList := by
  obtain ⟨-, -, hfar, -, -⟩ := boundedDistance_exact "lösch".toList "copy".toList 1
  obtain ⟨-, -, -, -, hlong⟩ := boundedDistance_exact "cöpi".toList "copy".toList 4
  exact ⟨hfar (by decide +kernel), (hlong (by decide)).2⟩

end FileShell.Suggestion
