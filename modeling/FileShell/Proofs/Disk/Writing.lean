import FileShell.Proofs.Disk.Entries
import FileShell.Proofs.Disk.Joining

/-!
# Where paths lead after a file has been written

Writing a file leaves all directories and links alone, and a new file only appears where nothing
could be seen. So a path that leads to something leads to the same thing afterwards, with the new
bytes if it is that file (`Written.target`).
-/

namespace FileShell

namespace Tree

/-- What is seen once the object of a number holds the bytes. -/
def View.rewritten (number : Nat) (bytes : Bytes) : View → View
  | directory => directory
  | file n held => file n (if n = number then bytes else held)
  | link n target => link n target

/-- In `u` the object of a number is a file with the bytes. All that is seen in `t` is still seen,
and what is new is a name of that file. -/
structure Written (t u : Tree) (number : Nat) (bytes : Bytes) : Prop where
  view_of_some : ∀ place seen, t.view place = some seen →
    u.view place = some (seen.rewritten number bytes)
  view_of_none : ∀ place, t.view place = none → ∀ seen, u.view place = some seen →
    seen = .file number bytes

variable {t u : Tree} {place : Place} {number : Nat} {bytes : Bytes}

theorem View.rewritten_rewritten (seen : View) (first : Bytes) :
    (seen.rewritten number first).rewritten number bytes = seen.rewritten number bytes := by
  cases seen with
  | directory => rfl
  | link n target => rfl
  | file n held =>
    by_cases hn : n = number
    · simp only [rewritten, if_pos hn]
    · simp only [rewritten, if_neg hn]

/-- Writing a file twice is writing it once. -/
theorem Written.trans {v : Tree} {first : Bytes} (h : Written t u number first)
    (h' : Written u v number bytes) : Written t v number bytes where
  view_of_some := by
    intro place seen hseen
    rw [h'.view_of_some _ _ (h.view_of_some _ _ hseen), View.rewritten_rewritten]
  view_of_none := by
    intro place hnone seen hseen
    cases hmiddle : u.view place with
    | none => exact h'.view_of_none place hmiddle seen hseen
    | some middle =>
      rw [h'.view_of_some _ _ hmiddle, h.view_of_none place hnone middle hmiddle,
        Option.some.injEq] at hseen
      rw [← hseen, View.rewritten, if_pos rfl]

theorem view_setContent (h : t.HoldsFile number) (bytes : Bytes) (place : Place) :
    (t.setContent number (.file bytes)).view place =
      (t.view place).map (View.rewritten number bytes) := by
  have hentry : (t.setContent number (.file bytes)).entryAt place = t.entryAt place := rfl
  rw [view, view, hentry]
  cases t.entryAt place with
  | none => rfl
  | some entry =>
    cases entry with
    | directory => rfl
    | object n =>
      simp only [contentOf_setContent]
      by_cases hn : n = number
      · obtain ⟨held, hheld⟩ := h
        subst hn
        simp [hheld, View.rewritten]
      · rw [if_neg hn]
        cases t.contentOf n with
        | none => rfl
        | some content => cases content <;> simp [View.rewritten, hn]

/-- No entry refers to the number that is taken next. -/
theorem entryAt_ne_freshNumber (t : Tree) (place : Place) :
    t.entryAt place ≠ some (.object t.freshNumber) := by
  by_cases hnil : place = []
  · subst hnil
    exact fun h => by cases h
  · rw [entryAt_of_ne_nil _ hnil]
    intro h
    obtain ⟨before, after, hentries, -⟩ := List.lookup_eq_some_iff.mp h
    have hmem : (place, Entry.object t.freshNumber) ∈ t.entries := by
      rw [hentries]
      simp
    have hle : numberOf (.object t.freshNumber) ≤
        (t.objects.map Prod.fst ++ t.entries.map fun e => numberOf e.2).foldr max 0 :=
      le_foldr_max (List.mem_append_right _ (List.mem_map_of_mem hmem))
    rw [numberOf, freshNumber] at hle
    omega

theorem view_addObject (t : Tree) (hplace : place ≠ []) (bytes : Bytes) (other : Place) :
    (t.addObject place (.file bytes)).view other =
      if other = place then some (.file t.freshNumber bytes) else t.view other := by
  by_cases hother : other = place
  · subst hother
    rw [if_pos rfl]
    exact view_of_entryAt (t.entryAt_addObject hplace _) (t.contentOf_addObject _ _)
  · rw [if_neg hother, view, view, t.entryAt_addObject_of_ne hplace hother]
    cases h : t.entryAt other with
    | none => rfl
    | some entry =>
      cases entry with
      | directory => rfl
      | object n =>
        have hn : n ≠ t.freshNumber := by
          rintro rfl
          exact t.entryAt_ne_freshNumber other h
        simp only [contentOf_addObject_of_ne hn]

theorem written_setContent (h : t.HoldsFile number) (bytes : Bytes) :
    Written t (t.setContent number (.file bytes)) number bytes where
  view_of_some := by
    intro place seen hseen
    rw [view_setContent h, hseen, Option.map_some]
  view_of_none := by
    intro place hnone seen hseen
    rw [view_setContent h, hnone] at hseen
    cases hseen

theorem written_addObject (hplace : place ≠ []) (hview : t.view place = none) (bytes : Bytes) :
    Written t (t.addObject place (.file bytes)) t.freshNumber bytes where
  view_of_some := by
    intro other seen hseen
    have hother : other ≠ place := by
      rintro rfl
      rw [hview] at hseen
      cases hseen
    rw [view_addObject t hplace, if_neg hother, hseen]
    cases seen with
    | directory => rfl
    | link n target => rfl
    | file n held =>
      have hn : n ≠ t.freshNumber := by
        rintro rfl
        exact t.entryAt_ne_freshNumber other (entryAt_of_view hseen)
      rw [View.rewritten, if_neg hn]
  view_of_none := by
    intro other hnone seen hseen
    rw [view_addObject t hplace, hnone] at hseen
    split at hseen
    · cases hseen
      rfl
    · cases hseen

/-- Names lead as far as they did, unless they led to a fault. -/
theorem Written.stretch (h : Written t u number bytes) {follow : Bool} {names : List String}
    {reached : Stretch} (hreached : t.stretch follow place names = reached)
    (hfault : ∀ fault, reached ≠ .fault fault) : u.stretch follow place names = reached := by
  induction names generalizing place with
  | nil => exact hreached
  | cons name rest ih =>
    rw [Tree.stretch] at hreached ⊢
    split
    · next hhere =>
      rw [if_pos hhere] at hreached
      exact ih hreached
    · next hhere =>
      rw [if_neg hhere] at hreached
      split
      · next hparent =>
        rw [if_pos hparent] at hreached
        exact ih hreached
      · next hparent =>
        rw [if_neg hparent] at hreached
        split
        · next hlast =>
          rw [if_pos hlast] at hreached
          exact hreached
        · next hlast =>
          rw [if_neg hlast] at hreached
          split
          · next hlong =>
            rw [if_pos hlong] at hreached
            exact hreached
          · next hlong =>
            rw [if_neg hlong] at hreached
            cases hview : t.view (place ++ [name]) with
            | some seen =>
              rw [h.view_of_some _ _ hview]
              rw [hview] at hreached
              cases seen with
              | link n target => exact hreached
              | file n held => exact hreached
              | directory =>
                simp only [View.rewritten] at hreached ⊢
                split
                · next hrest =>
                  rw [if_pos hrest] at hreached
                  exact hreached
                · next hrest =>
                  rw [if_neg hrest] at hreached
                  exact ih hreached
            | none =>
              -- A name that was free can only be the last one, and leads to itself.
              rw [hview] at hreached
              by_cases hrest : rest = []
              · simp only [if_pos hrest] at hreached
                cases hnow : u.view (place ++ [name]) with
                | none => simp only [if_pos hrest, hreached]
                | some seen =>
                  rw [h.view_of_none _ hview seen hnow]
                  simp only [if_pos hrest, hreached]
              · simp only [if_neg hrest] at hreached
                exact absurd hreached.symm (hfault _)

theorem Written.walk (h : Written t u number bytes) {aim : Aim} {links : Nat}
    {names : List String} {slashed : Bool} {spot : Spot}
    (hwalk : t.walk aim links place names slashed = .ok spot) :
    u.walk aim links place names slashed = .ok spot := by
  induction links using Nat.strongRecOn generalizing place names slashed with
  | ind links ih =>
    rcases walk_eq_ok hwalk with ⟨top, hstretch, rfl⟩ | ⟨directory, name, hstretch, rfl⟩ |
      ⟨directory, target, rest, left, hstretch, rfl, hrest⟩
    · rw [Tree.walk, h.stretch hstretch fun fault => by simp]
    · rw [Tree.walk, h.stretch hstretch fun fault => by simp]
    · rw [Tree.walk, h.stretch hstretch fun fault => by simp]
      exact ih left (Nat.lt_succ_self left) hrest

end Tree

namespace Disk

/-- What a path stands for once the file of a number holds the bytes. -/
def Target.rewritten (number : Nat) (bytes : Bytes) : Target → Target
  | directory place => directory place
  | file n held => file n (if n = number then bytes else held)

/-- The disk after a file has been written, which may be a new one. -/
structure Written (d after : Disk) (number : Nat) (bytes : Bytes) : Prop where
  cwd_eq : after.cwd = d.cwd
  tree : d.tree.Written after.tree number bytes

variable {d after : Disk} {number : Nat} {bytes : Bytes}

theorem Written.trans {opened : Disk} {first : Bytes} (h : d.Written opened number first)
    (h' : opened.Written after number bytes) : d.Written after number bytes :=
  ⟨h'.cwd_eq.trans h.cwd_eq, h.tree.trans h'.tree⟩

theorem Written.reach (h : d.Written after number bytes) {aim : Aim} {path : String} {spot : Spot}
    (hreach : d.reach aim path = .ok spot) : after.reach aim path = .ok spot := by
  unfold Disk.reach at hreach ⊢
  split
  · next fault hread =>
    rw [hread] at hreach
    cases hreach
  · next p hread =>
    rw [hread] at hreach
    rw [h.cwd_eq]
    exact h.tree.walk hreach

theorem Written.targetAt (h : d.Written after number bytes) {spot : Spot} {found : Target}
    (hfound : d.targetAt spot = .ok found) :
    after.targetAt spot = .ok (found.rewritten number bytes) := by
  unfold Disk.targetAt at hfound ⊢
  split at hfound
  · cases hfound
    rfl
  · next directory name slashed =>
    split at hfound
    · cases hfound
    · next hlong =>
      rw [if_neg hlong]
      split at hfound
      · cases hfound
      · next hview =>
        cases hfound
        rw [h.tree.view_of_some _ _ hview]
        rfl
      · next n held hview =>
        rw [h.tree.view_of_some _ _ hview]
        split at hfound
        · cases hfound
        · next hslash =>
          cases hfound
          simp only [Tree.View.rewritten, if_neg hslash, Target.rewritten]
      · cases hfound

/-- What a path stood for it still stands for, with the bytes that have been written. -/
theorem Written.target (h : d.Written after number bytes) {path : String} {found : Target}
    (hfound : d.target path = .ok found) :
    after.target path = .ok (found.rewritten number bytes) := by
  obtain ⟨hnul, spot, hreach, hspot⟩ := target_eq_ok hfound
  rw [Disk.target, if_neg (by rw [hnul]; decide), h.reach hreach]
  simp only [h.targetAt hspot]

/-- Opening a file to write it empties it, or makes an empty one, and concerns no other object. -/
theorem openAt_written {opened : Disk} {spot : Spot} (h : d.openAt spot = .ok (opened, number)) :
    d.Written opened number [] ∧ (∀ n, n ≠ number → opened.tree.contentOf n = d.tree.contentOf n) ∧
      ∃ directory name, spot = .named directory name false ∧ Path.tooLong name = false ∧
        opened.tree.view (directory ++ [name]) = some (.file number []) := by
  obtain ⟨directory, name, rfl, hlong, ⟨hview, rfl, rfl⟩ | ⟨old, hview, rfl⟩⟩ := openAt_eq_ok h
  · have hplace : directory ++ [name] ≠ [] :=
      List.append_ne_nil_of_right_ne_nil _ (List.cons_ne_nil name [])
    refine ⟨⟨rfl, Tree.written_addObject hplace hview []⟩, ?_, directory, name, rfl, hlong, ?_⟩
    · exact fun n hn => Tree.contentOf_addObject_of_ne hn _ _
    · rw [withTree, Tree.view_addObject _ hplace, if_pos rfl]
  · have hfile : d.tree.HoldsFile number := ⟨old, Tree.contentOf_of_view hview⟩
    refine ⟨⟨rfl, Tree.written_setContent hfile []⟩, ?_, directory, name, rfl, hlong, ?_⟩
    · intro n hn
      rw [withTree, Tree.contentOf_setContent, if_neg hn]
    · rw [withTree, Tree.view_setContent hfile, hview, Option.map_some, Tree.View.rewritten,
        if_pos rfl]

theorem written_write (h : d.tree.HoldsFile number) (bytes : Bytes) :
    d.Written (d.write number bytes) number bytes :=
  ⟨rfl, Tree.written_setContent h bytes⟩

end Disk

end FileShell
