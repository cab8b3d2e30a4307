import FileShell.Disk.Basic

/-!
# What objects hold

How the operations on trees change what the object of a number holds, and what it takes for a file
to be opened: `targetAt_eq_file` and `openAt_eq_ok` say all that a success implies. Files stay
files when another one, or the same, is opened to be written (`holdsFile_of_openToWrite`).
-/

namespace FileShell

theorem lookup_filter_key {α β : Type} [BEq α] [LawfulBEq α] (pairs : List (α × β))
    (keep : α → Bool) (key : α) :
    (pairs.filter fun p => keep p.1).lookup key = if keep key then pairs.lookup key else none := by
  induction pairs with
  | nil => simp
  | cons p pairs ih =>
    obtain ⟨k, value⟩ := p
    by_cases hkeep : keep k = true
    · rw [List.filter_cons_of_pos (by simpa using hkeep), List.lookup_cons, List.lookup_cons, ih]
      by_cases hkey : key = k
      · subst hkey
        simp [hkeep]
      · have hne : (key == k) = false := beq_false_of_ne hkey
        rw [hne]
    · rw [List.filter_cons_of_neg (by simpa using hkeep), ih, List.lookup_cons]
      by_cases hkey : key = k
      · subst hkey
        simp [hkeep]
      · have hne : (key == k) = false := beq_false_of_ne hkey
        rw [hne]

namespace Tree

/-- Whether the object of a number is a file. -/
def HoldsFile (t : Tree) (number : Nat) : Prop :=
  ∃ bytes, t.contentOf number = some (.file bytes)

theorem contentOf_setContent (t : Tree) (m n : Nat) (content : Content) :
    (t.setContent n content).contentOf m = if m = n then some content else t.contentOf m := by
  by_cases h : m = n
  · subst h
    simp [setContent, contentOf]
  · have hne : (m == n) = false := by simpa using h
    rw [if_neg h, contentOf, contentOf, setContent, List.lookup_cons, hne]
    have hkeep := lookup_filter_key t.objects (fun k => decide (k ≠ n)) m
    rw [if_pos (decide_eq_true h)] at hkeep
    exact hkeep

/-- What is seen depends on the entry and on what objects hold. -/
theorem view_congr {t u : Tree} {p q : Place} (hentry : u.entryAt q = t.entryAt p)
    (hcontent : ∀ number, u.contentOf number = t.contentOf number) : u.view q = t.view p := by
  rw [view, view, hentry]
  simp only [hcontent]

/-- The bytes that are seen at a place are those that the object holds. -/
theorem contentOf_of_view {t : Tree} {place : Place} {number : Nat} {bytes : Bytes}
    (h : t.view place = some (.file number bytes)) :
    t.contentOf number = some (.file bytes) := by
  unfold view at h
  split at h
  · cases h
  · cases h
  · next m _ =>
    split at h
    · cases h
    · next found hfound =>
      cases h
      exact hfound
    · cases h

theorem entryAt_of_view {t : Tree} {place : Place} {number : Nat} {bytes : Bytes}
    (h : t.view place = some (.file number bytes)) :
    t.entryAt place = some (.object number) := by
  unfold view at h
  split at h
  · cases h
  · cases h
  · next m hentry =>
    split at h
    · cases h
    · cases h
      exact hentry
    · cases h

theorem HoldsFile.setContent {t : Tree} {m : Nat} (h : t.HoldsFile m) (n : Nat)
    (bytes : Bytes) : (t.setContent n (.file bytes)).HoldsFile m := by
  obtain ⟨held, hheld⟩ := h
  by_cases hmn : m = n
  · exact ⟨bytes, by rw [contentOf_setContent, if_pos hmn]⟩
  · exact ⟨held, by rw [contentOf_setContent, if_neg hmn, hheld]⟩

end Tree

namespace Disk

variable {d opened : Disk} {path : String} {number : Nat}

theorem target_eq_ok {found : Target} (h : d.target path = .ok found) :
    Path.hasNul path = false ∧ ∃ spot, d.reach .object path = .ok spot ∧
      d.targetAt spot = .ok found := by
  unfold target at h
  split at h
  · cases h
  · next hnul =>
    refine ⟨by simpa using hnul, ?_⟩
    split at h
    · cases h
    · next spot hreach =>
      split at h
      · cases h
      · next other htarget =>
        cases h
        exact ⟨spot, hreach, htarget⟩

/-- What is at the end of a walk is a file only if the walk ends at a name of that file. -/
theorem targetAt_eq_file {spot : Spot} {bytes : Bytes}
    (h : d.targetAt spot = .ok (.file number bytes)) :
    ∃ directory name, spot = .named directory name false ∧ Path.tooLong name = false ∧
      d.tree.view (directory ++ [name]) = some (.file number bytes) := by
  unfold targetAt at h
  split at h
  · cases h
  · next directory name slashed =>
    split at h
    · cases h
    · next hlong =>
      split at h
      · cases h
      · cases h
      · next m held hview =>
        split at h
        · cases h
        · next hslash =>
          have hfalse : slashed = false := by simpa using hslash
          subst hfalse
          cases h
          exact ⟨directory, name, rfl, by simpa using hlong, hview⟩
      · cases h

theorem holdsFile_of_openToRead (h : d.openToRead path = .ok number) :
    d.tree.HoldsFile number := by
  unfold openToRead at h
  split at h
  · cases h
  · cases h
  · next m bytes htarget =>
    cases h
    obtain ⟨-, spot, -, hspot⟩ := target_eq_ok htarget
    obtain ⟨directory, name, -, -, hview⟩ := targetAt_eq_file hspot
    exact ⟨bytes, Tree.contentOf_of_view hview⟩

/-- At the end of a walk a file is opened to be written in one of two ways: a new one is made
where nothing stands, or one that stands there is emptied. -/
theorem openAt_eq_ok {spot : Spot} (h : d.openAt spot = .ok (opened, number)) :
    ∃ directory name, spot = .named directory name false ∧ Path.tooLong name = false ∧
      ((d.tree.view (directory ++ [name]) = none ∧ number = d.tree.freshNumber ∧
          opened = d.withTree (d.tree.addObject (directory ++ [name]) (.file []))) ∨
        ∃ bytes, d.tree.view (directory ++ [name]) = some (.file number bytes) ∧
          opened = d.withTree (d.tree.setContent number (.file []))) := by
  unfold openAt at h
  split at h
  · cases h
  · next directory name slashed =>
    split at h
    · cases h
    · next hslash =>
      have hfalse : slashed = false := by simpa using hslash
      subst hfalse
      split at h
      · cases h
      · next hlong =>
        refine ⟨directory, name, rfl, by simpa using hlong, ?_⟩
        split at h
        · next hview =>
          cases h
          exact Or.inl ⟨hview, rfl, rfl⟩
        · next m bytes hview =>
          cases h
          exact Or.inr ⟨bytes, hview, rfl⟩
        · cases h
        · cases h

theorem openToWrite_eq_ok (h : d.openToWrite path = .ok (opened, number)) :
    Path.hasNul path = false ∧ ∃ spot, d.reach .creation path = .ok spot ∧
      d.openAt spot = .ok (opened, number) := by
  unfold openToWrite at h
  split at h
  · cases h
  · next hnul =>
    refine ⟨by simpa using hnul, ?_⟩
    split at h
    · cases h
    · next spot hreach =>
      split at h
      · cases h
      · next found hopen =>
        cases h
        exact ⟨spot, hreach, hopen⟩

/-- Files stay files when a file is opened to be written. -/
theorem holdsFile_of_openToWrite {m : Nat} (h : d.openToWrite path = .ok (opened, number))
    (hfile : d.tree.HoldsFile m) : opened.tree.HoldsFile m := by
  obtain ⟨-, spot, -, hopen⟩ := openToWrite_eq_ok h
  obtain ⟨directory, name, -, -, ⟨-, -, rfl⟩ | ⟨bytes, -, rfl⟩⟩ := openAt_eq_ok hopen
  · exact hfile.setContent d.tree.freshNumber []
  · exact hfile.setContent number []

end Disk

end FileShell
