import FileShell.Proofs.Disk.Renaming

/-!
# Well-formed trees

What a file system keeps true of its tree: every entry is in a directory, every object that has a
name has a content, and no name is longer than names may be. In such a tree a place where nothing
is seen has no entry. A walk from a directory ends in a directory (`walk_base`), so that no line
breaks a tree: `execute_wellFormed`.
-/

namespace FileShell

/-- A tree as file systems keep it. -/
structure Tree.WellFormed (t : Tree) : Prop where
  closed : t.Closed
  held : ∀ place number, t.entryAt place = some (.object number) → t.contentOf number ≠ none
  short : ∀ place name, t.entryAt (place ++ [name]) ≠ none → Path.tooLong name = false

namespace Tree

variable {t u : Tree} {place top directory old new : Place} {name : String} {number : Nat}

theorem view_eq_directory_iff :
    t.view place = some .directory ↔ t.entryAt place = some .directory := by
  unfold view
  cases t.entryAt place with
  | none => simp
  | some entry =>
    cases entry with
    | directory => simp
    | object number =>
      cases hcontent : t.contentOf number with
      | none => simp [hcontent]
      | some content => cases content <;> simp [hcontent]

theorem mem_entries_of_entryAt {entry : Entry} (hne : place ≠ [])
    (h : t.entryAt place = some entry) : (place, entry) ∈ t.entries := by
  rw [entryAt_of_ne_nil _ hne, List.lookup_eq_some_iff] at h
  obtain ⟨before, after, hentries, -⟩ := h
  rw [hentries]
  simp

/-- It is enough to look at the entries that are listed. -/
theorem wellFormed_of_forall_entries (h : ∀ e ∈ t.entries,
    t.entryAt e.1.dropLast = some .directory ∧ (∀ name ∈ e.1.getLast?, Path.tooLong name = false) ∧
      (e.2 = .directory ∨ t.contentOf (numberOf e.2) ≠ none)) : t.WellFormed := by
  have hnamed : ∀ place name, t.entryAt (place ++ [name]) ≠ none → ∃ entry,
      (place ++ [name], entry) ∈ t.entries := by
    intro place name hsome
    obtain ⟨entry, hentry⟩ := Option.ne_none_iff_exists'.mp hsome
    exact ⟨entry, mem_entries_of_entryAt
      (List.append_ne_nil_of_right_ne_nil _ (List.cons_ne_nil _ _)) hentry⟩
  refine ⟨?_, ?_, ?_⟩
  · intro place name hsome
    obtain ⟨entry, hmem⟩ := hnamed place name hsome
    simpa using (h _ hmem).1
  · intro place number hentry
    have hne : place ≠ [] := by
      rintro rfl
      cases hentry
    rcases (h _ (mem_entries_of_entryAt hne hentry)).2.2 with hdirectory | hheld
    · cases hdirectory
    · exact hheld
  · intro place name hsome
    obtain ⟨entry, hmem⟩ := hnamed place name hsome
    exact (h _ hmem).2.1 name (by simp)

/-- A place at or below another one is that place, or its directory is at or below it too. -/
theorem eq_or_below_of_append {rest : Place} {child other : String}
    (h : place ++ [child] = top ++ [other] ++ rest) :
    rest = [] ∧ place = top ∧ child = other ∨
      ∃ front, rest = front ++ [child] ∧ place = top ++ [other] ++ front := by
  rcases List.eq_nil_or_concat rest with rfl | ⟨front, last, rfl⟩
  · rw [List.append_nil] at h
    obtain ⟨hplace, hchild⟩ := List.append_inj' h rfl
    exact Or.inl ⟨rfl, hplace, List.singleton_inj.mp hchild⟩
  · rw [List.concat_eq_append, ← List.append_assoc] at h
    obtain ⟨hplace, hchild⟩ := List.append_inj' h rfl
    refine Or.inr ⟨front, ?_, hplace⟩
    rw [List.concat_eq_append, hchild]

namespace WellFormed

theorem view_eq_none_iff (ht : t.WellFormed) : t.view place = none ↔ t.entryAt place = none := by
  unfold view
  cases hentry : t.entryAt place with
  | none => simp
  | some entry =>
    cases entry with
    | directory => simp
    | object number =>
      cases hcontent : t.contentOf number with
      | none => exact absurd hcontent (ht.held _ _ hentry)
      | some content => cases content <;> simp [hcontent]

theorem setContent (ht : t.WellFormed) (number : Nat) (content : Content) :
    (t.setContent number content).WellFormed := by
  refine ⟨ht.closed, ?_, ht.short⟩
  intro place other hentry
  rw [contentOf_setContent]
  split
  · simp
  · exact ht.held _ _ hentry

/-- A free name in a directory may be taken, by a directory or by an object that holds something. -/
theorem setEntry (ht : t.WellFormed) (hdirectory : t.entryAt directory = some .directory)
    (hname : Path.tooLong name = false) (hview : t.view (directory ++ [name]) = none)
    {entry : Entry} (hheld : ∀ number, entry = .object number → t.contentOf number ≠ none) :
    (t.setEntry (directory ++ [name]) entry).WellFormed := by
  have hne : directory ++ [name] ≠ [] :=
    List.append_ne_nil_of_right_ne_nil _ (List.cons_ne_nil _ _)
  rw [ht.view_eq_none_iff] at hview
  -- What is a directory is not at the new place.
  have hkept : ∀ {place}, t.entryAt place = some .directory →
      (t.setEntry (directory ++ [name]) entry).entryAt place = some .directory := by
    intro place hplace
    rw [entryAt_setEntry _ hne, if_neg, hplace]
    rintro rfl
    cases hview.symm.trans hplace
  refine ⟨?_, ?_, ?_⟩
  · intro place child hchild
    by_cases hnew : place ++ [child] = directory ++ [name]
    · obtain ⟨rfl, -⟩ := List.append_inj' hnew rfl
      exact hkept hdirectory
    · rw [entryAt_setEntry _ hne, if_neg hnew] at hchild
      exact hkept (ht.closed _ _ hchild)
  · intro place number hentry
    rw [entryAt_setEntry _ hne] at hentry
    split at hentry
    · exact hheld number (Option.some.inj hentry)
    · exact ht.held _ _ hentry
  · intro place child hchild
    by_cases hnew : place ++ [child] = directory ++ [name]
    · obtain ⟨-, hchild⟩ := List.append_inj' hnew rfl
      rw [List.singleton_inj.mp hchild]
      exact hname
    · rw [entryAt_setEntry _ hne, if_neg hnew] at hchild
      exact ht.short _ _ hchild

theorem addObject (ht : t.WellFormed) (hdirectory : t.entryAt directory = some .directory)
    (hname : Path.tooLong name = false) (hview : t.view (directory ++ [name]) = none)
    (content : Content) : (t.addObject (directory ++ [name]) content).WellFormed := by
  have hset := ht.setContent t.freshNumber content
  refine hset.setEntry hdirectory hname ?_ ?_
  · rw [hset.view_eq_none_iff]
    exact ht.view_eq_none_iff.mp hview
  · rintro number heq
    rw [← Entry.object.inj heq, contentOf_setContent, if_pos rfl]
    simp

theorem removeEntry (ht : t.WellFormed) (hne : place ≠ [])
    (hkind : t.entryAt place ≠ some .directory) : (t.removeEntry place).WellFormed := by
  have hkept : ∀ {other entry}, (t.removeEntry place).entryAt other = some entry →
      t.entryAt other = some entry := by
    intro other entry hentry
    rw [entryAt_removeEntry _ hne] at hentry
    split at hentry
    · cases hentry
    · exact hentry
  have hsome : ∀ {other}, (t.removeEntry place).entryAt other ≠ none → t.entryAt other ≠ none := by
    intro other hother
    obtain ⟨entry, hentry⟩ := Option.ne_none_iff_exists'.mp hother
    rw [hkept hentry]
    simp
  refine ⟨?_, fun _ _ hentry => ht.held _ _ (hkept hentry), fun _ _ h => ht.short _ _ (hsome h)⟩
  intro other name hname
  have hdirectory := ht.closed _ _ (hsome hname)
  rw [entryAt_removeEntry _ hne, if_neg, hdirectory]
  rintro rfl
  exact hkind hdirectory

/-- Something may move to another name in its directory. -/
theorem movedTo {other : String} (ht : t.WellFormed) (hother : Path.tooLong other = false)
    (hsome : t.entryAt (top ++ [name]) ≠ none)
    (h : t.MovedTo u (top ++ [name]) (top ++ [other])) : u.WellFormed := by
  have htop : u.entryAt top = some .directory := by
    rw [h.elsewhere top (not_within_above top name) (not_within_above top other)]
    exact ht.closed _ _ hsome
  -- What is at the new name or below it has come from the old one, and all else has not moved.
  refine ⟨?_, ?_, ?_⟩
  · intro place child hchild
    rcases h.entryAt_cases hchild with ⟨rest, hplace, hentry⟩ | ⟨hold, hnew, hentry⟩
    · rcases eq_or_below_of_append hplace with ⟨-, rfl, -⟩ | ⟨front, rfl, rfl⟩
      · exact htop
      · rw [hentry, ← List.append_assoc] at hchild
        rw [h.arrived front]
        exact ht.closed _ _ hchild
    · rw [hentry] at hchild
      rw [h.elsewhere place (not_within_of_append hold) (not_within_of_append hnew)]
      exact ht.closed _ _ hchild
  · intro place number hentry
    rw [h.contentOf_eq]
    rcases h.entryAt_cases (by rw [hentry]; simp) with ⟨rest, -, hplace⟩ | ⟨-, -, hplace⟩
    · exact ht.held _ _ (hplace.symm.trans hentry)
    · exact ht.held _ _ (hplace.symm.trans hentry)
  · intro place child hchild
    rcases h.entryAt_cases hchild with ⟨rest, hplace, hentry⟩ | ⟨-, -, hentry⟩
    · rcases eq_or_below_of_append hplace with ⟨-, -, rfl⟩ | ⟨front, rfl, -⟩
      · exact hother
      · rw [hentry, ← List.append_assoc] at hchild
        exact ht.short _ _ hchild
    · rw [hentry] at hchild
      exact ht.short _ _ hchild

end WellFormed

/-- The directory from which names are left to be looked up. -/
def Stretch.base? : Stretch → Option Place
  | .directory place => some place
  | .named place _ => some place
  | .link place _ _ => some place
  | .fault _ => none

theorem Closed.dropLast (h : t.Closed) (hplace : t.entryAt place = some .directory) :
    t.entryAt place.dropLast = some .directory := by
  rcases List.eq_nil_or_concat place with rfl | ⟨front, last, rfl⟩
  · rfl
  · rw [List.concat_eq_append] at hplace ⊢
    rw [List.dropLast_concat]
    exact h _ last (by rw [hplace]; simp)

theorem Closed.stretch_base (h : t.Closed) (hplace : t.entryAt place = some .directory)
    {follow : Bool} {names : List String}
    (hbase : (t.stretch follow place names).base? = some directory) :
    t.entryAt directory = some .directory := by
  induction names generalizing place with
  | nil =>
    cases hbase
    exact hplace
  | cons name rest ih =>
    rw [stretch] at hbase
    split at hbase
    · exact ih hplace hbase
    · split at hbase
      · exact ih (h.dropLast hplace) hbase
      · split at hbase
        · cases hbase
          exact hplace
        · split at hbase
          · cases hbase
          · split at hbase
            · cases hbase
              exact hplace
            · next hview =>
              split at hbase
              · cases hbase
                exact hplace
              · exact ih (view_eq_directory_iff.mp hview) hbase
            · split at hbase
              · cases hbase
                exact hplace
              · cases hbase
            · split at hbase
              · cases hbase
                exact hplace
              · cases hbase

end Tree

/-- The directory at a spot, or that of the name there. -/
def Spot.base : Spot → Place
  | directory place => place
  | named place _ _ => place

/-- A walk from a directory ends in a directory. -/
theorem Tree.Closed.walk_base {t : Tree} {place : Place} {aim : Aim} {links : Nat}
    {names : List String} {slashed : Bool} {spot : Spot} (h : t.Closed)
    (hplace : t.entryAt place = some .directory)
    (hwalk : t.walk aim links place names slashed = .ok spot) :
    t.entryAt spot.base = some .directory := by
  induction links using Nat.strongRecOn generalizing place names slashed with
  | ind links ih =>
    rcases walk_eq_ok hwalk with ⟨top, hstretch, rfl⟩ | ⟨directory, name, hstretch, rfl⟩ |
      ⟨directory, target, rest, left, hstretch, rfl, hrest⟩
    · exact h.stretch_base hplace (by rw [hstretch]; rfl)
    · exact h.stretch_base hplace (by rw [hstretch]; rfl)
    · have hdirectory : t.entryAt directory = some .directory :=
        h.stretch_base hplace (by rw [hstretch]; rfl)
      refine ih left (Nat.lt_succ_self left) ?_ hrest
      split
      · rfl
      · exact hdirectory

variable {d after : Disk} {root : String} {top : Place} {c : Command}

namespace Disk

theorem reach_base (ht : d.tree.Closed) (hcwd : d.tree.entryAt d.cwd = some .directory) {aim : Aim}
    {path : String} {spot : Spot} (h : d.reach aim path = .ok spot) :
    d.tree.entryAt spot.base = some .directory := by
  obtain ⟨-, -, hwalk⟩ := reach_eq_ok_iff.mp h
  refine ht.walk_base ?_ hwalk
  split
  · rfl
  · exact hcwd

/-- Opening a file to write it may make one, in the directory where the walk to it ends. -/
theorem wellFormed_of_openToWrite {opened : Disk} {path : String} {number : Nat}
    (ht : d.tree.WellFormed) (hcwd : d.tree.entryAt d.cwd = some .directory)
    (h : d.openToWrite path = .ok (opened, number)) : opened.tree.WellFormed := by
  obtain ⟨-, spot, hreach, hopen⟩ := openToWrite_eq_ok h
  obtain ⟨directory, name, rfl, hname, ⟨hview, -, rfl⟩ | ⟨bytes, -, rfl⟩⟩ := openAt_eq_ok hopen
  · exact ht.addObject (reach_base ht.closed hcwd hreach) hname hview _
  · exact ht.setContent number _

end Disk

theorem Command.Performs.wellFormed {confirmation : String}
    (h : Performs root d c after confirmation) (ht : d.tree.WellFormed)
    (hcwd : d.tree.entryAt d.cwd = some .directory)
    (hroot : d.target root = .ok (.directory top))
    (hnames : ∀ name ∈ c.operands, Path.IsComponent name) : after.tree.WellFormed := by
  cases h with
  | create hcreate =>
    obtain ⟨-, directory, found, hreach, hname, hview, rfl⟩ := Disk.create_eq_ok hcreate
    exact ht.addObject (Disk.reach_base ht.closed hcwd hreach) hname hview _
  | delete hdelete =>
    obtain ⟨directory, found, seen, -, hview, hkind, rfl⟩ := Disk.remove_eq_ok hdelete
    refine ht.removeEntry (List.append_ne_nil_of_right_ne_nil _ (List.cons_ne_nil _ _)) ?_
    rw [Ne, ← Tree.view_eq_directory_iff, hview, Option.some.injEq]
    rintro rfl
    cases hkind
  | @rename source target _ hrename =>
    obtain ⟨-, -, hrename⟩ := (Disk.rename_join_eq_ok_iff hroot (hnames source (by simp))
      (hnames target (by simp))).mp hrename
    obtain ⟨-, hshort, hview, ⟨-, rfl⟩ | ⟨hdiffer, hgives, rfl⟩⟩ :=
      Disk.renameAt_sibling_eq_ok_iff.mp hrename
    · exact ht
    · have hplaces : top ++ [source] ≠ top ++ [target] := fun heq => hdiffer (Or.inl heq)
      exact ht.movedTo hshort (mt ht.view_eq_none_iff.mpr hview)
        (Tree.movedTo_move ht.closed (by simp) hplaces hgives)
  | copy hcopy =>
    obtain ⟨-, held, opened, number, bytes, -, hopen, -, -, rfl⟩ := Disk.copy_eq_ok hcopy
    exact (Disk.wellFormed_of_openToWrite ht hcwd hopen).setContent number _

/-- No line breaks a tree. -/
theorem execute_wellFormed (ht : d.tree.WellFormed) (hcwd : d.tree.entryAt d.cwd = some .directory)
    (hroot : d.target root = .ok (.directory top)) (strict : Bool) (line : String) :
    (Line.execute strict root line d).disk.tree.WellFormed := by
  cases hline : Command.ofLine strict line with
  | error r =>
    rw [Line.execute_of_error hline]
    exact ht
  | ok c =>
    obtain ⟨-, hdisk⟩ := Line.execute_of_ok hline root d
    rw [hdisk]
    rcases c.execute_outcome (Command.length_operands_of_ofLine hline) root d with
      ⟨-, -, hsame⟩ | ⟨-, -, hsame⟩ | ⟨confirmation, -, hperforms⟩
    · rw [hsame]
      exact ht
    · rw [hsame]
      exact ht
    · exact hperforms.wellFormed ht hcwd hroot (Command.isComponent_of_ofLine hline)

end FileShell
