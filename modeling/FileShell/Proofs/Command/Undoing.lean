import FileShell.Proofs.Command.Renaming
import FileShell.Proofs.Disk.Locality

/-!
# Undoing commands

Creating a file is undone by deleting it, giving an entry a free name by giving it the old one
back, and copying to a free name by deleting the copy (`Command.Undoes`). On a plain root the second
command succeeds whenever the first one has, and nothing can be seen of both afterwards
(`Disk.Restored`). Main statement: `execute_undone`.
-/

namespace FileShell

namespace Tree

variable {t u v : Tree} {place old new : Place}

/-- There and back again, if nothing stood at the other place. -/
theorem MovedTo.entryAt_back (h : t.MovedTo u old new) (hback : u.MovedTo v new old)
    (hfree : t.entryAt new = none) (place : Place) : v.entryAt place = t.entryAt place := by
  cases hold : within old place with
  | true =>
    obtain ⟨rest, rfl⟩ := within_iff.mp hold
    rw [hback.arrived, h.arrived]
  | false =>
    cases hnew : within new place with
    | true =>
      obtain ⟨rest, rfl⟩ := within_iff.mp hnew
      rw [hback.gone]
      by_cases hrest : rest = []
      · rw [hrest, List.append_nil, hfree]
      · exact (h.bare rest hrest).symm
    | false => rw [hback.elsewhere place hnew hold, h.elsewhere place hold hnew]

theorem entryAt_remove_added (hplace : place ≠ []) (hfree : t.entryAt place = none)
    (content : Content) (other : Place) :
    ((t.addObject place content).removeEntry place).entryAt other = t.entryAt other := by
  rw [entryAt_removeEntry _ hplace]
  split
  · next hother => rw [hother, hfree]
  · next hother => exact entryAt_addObject_of_ne _ hplace hother content

/-- Nothing can be seen of a file that is removed again. -/
theorem view_remove_added (hplace : place ≠ []) (hfree : t.entryAt place = none) (bytes : Bytes)
    (other : Place) :
    ((t.addObject place (.file bytes)).removeEntry place).view other = t.view other := by
  by_cases hother : other = place
  · subst hother
    rw [view, entryAt_remove_added hplace hfree, view, hfree]
  · have hadded := t.view_addObject hplace bytes other
    rw [if_neg hother] at hadded
    rw [← hadded]
    refine view_congr ?_ fun _ => rfl
    rw [entryAt_removeEntry _ hplace, if_neg hother]

end Tree

/-- Nothing tells one disk from the other: the same entries, with the same numbers and thus the same
hard links, and the same is seen at every place. Only an object without a name may be left over. -/
structure Disk.Restored (d after : Disk) : Prop where
  cwd_eq : after.cwd = d.cwd
  entryAt_eq : ∀ place, after.tree.entryAt place = d.tree.entryAt place
  view_eq : ∀ place, after.tree.view place = d.tree.view place

/-- The second command undoes the first one in a directory where its target is free. -/
inductive Command.Undoes (t : Tree) (top : Place) : Command → Command → Prop
  | create (name : String) : Undoes t top ⟨.create, [name]⟩ ⟨.delete, [name]⟩
  | rename (source : String) {target : String} : t.entryAt (top ++ [target]) = none →
      Undoes t top ⟨.rename, [source, target]⟩ ⟨.rename, [target, source]⟩
  | copy (source : String) {target : String} : t.entryAt (top ++ [target]) = none →
      Undoes t top ⟨.copy, [source, target]⟩ ⟨.delete, [target]⟩

variable {d after : Disk} {root name source target : String} {top : Place} {c u : Command}

namespace Disk

theorem PlainRoot.reach_entry_join (h : d.PlainRoot root top) (hname : Path.IsComponent name) :
    d.reach .entry (Path.join root name) = Path.arrival .entry root top name :=
  h.reach_join hname fun hfollows => by cases hfollows

/-- A new file at a name that was free can be deleted, and nothing is left of it. -/
theorem removes_added (hroot : d.PlainRoot root top) (hname : Path.IsComponent name)
    (hnul : Path.hasNul (Path.join root name) = false)
    (hreach : Path.arrival .entry root top name = .ok (.named top name false))
    (hlong : Path.tooLong name = false) (hfree : d.tree.entryAt (top ++ [name]) = none)
    (bytes : Bytes) :
    ∃ last, (d.withTree (d.tree.addObject (top ++ [name]) (.file bytes))).remove
        (Path.join root name) = .ok last ∧ d.Restored last := by
  have hplace : top ++ [name] ≠ [] := List.append_ne_nil_of_right_ne_nil _ (List.cons_ne_nil _ _)
  have hadd : (Tree.Effect.add (top ++ [name]) bytes).Concerns d.tree top [name] :=
    .add bytes (List.mem_singleton_self name)
  have hview : (d.tree.addObject (top ++ [name]) (.file bytes)).view (top ++ [name]) =
      some (.file d.tree.freshNumber bytes) := by
    rw [d.tree.view_addObject hplace, if_pos rfl]
  refine ⟨_, remove_of_view hnul (((hroot.on hadd).reach_entry_join hname).trans hreach) hlong
    hview rfl, ⟨rfl, ?_, ?_⟩⟩
  · exact Tree.entryAt_remove_added hplace hfree _
  · exact Tree.view_remove_added hplace hfree bytes

/-- What has moved to a free name in its directory can move back. -/
theorem renameAt_back (ht : d.tree.WellFormed) (hfree : d.tree.entryAt (top ++ [target]) = none)
    (h : d.renameAt (.named top source false) (.named top target false) = .ok after) :
    source ≠ target ∧ after = d.withTree (d.tree.move (top ++ [source]) (top ++ [target])) ∧
      ∃ last, after.renameAt (.named top target false) (.named top source false) = .ok last ∧
        d.Restored last := by
  obtain ⟨hshort, hshort', hseen, hcases⟩ := renameAt_sibling_eq_ok_iff.mp h
  have hnone : d.tree.view (top ++ [target]) = none := ht.view_eq_none_iff.mpr hfree
  have hdiffer : ¬ d.tree.SameObject (top ++ [source]) (top ++ [target]) :=
    fun hsame => hseen (hsame.view_eq.trans hnone)
  have hne : top ++ [source] ≠ top ++ [target] := fun heq => hdiffer (Or.inl heq)
  obtain ⟨-, hgives, rfl⟩ := hcases.resolve_left fun hsame => hdiffer hsame.1
  have hmoved := Tree.movedTo_move ht.closed (by simp) hne hgives
  have hwell := ht.movedTo hshort' (mt ht.view_eq_none_iff.mpr hseen) hmoved
  -- Now the new name shows what the old one did, and the old one nothing.
  have hthere := hmoved.seen []
  have hgone := hmoved.gone []
  rw [List.append_nil, List.append_nil] at hthere
  rw [List.append_nil, ← hwell.view_eq_none_iff] at hgone
  rw [← hthere] at hseen
  have hback := Tree.movedTo_move hwell.closed (by simp) (Ne.symm hne) (.absent hgone)
  refine ⟨by simpa using hne, rfl, _, renameAt_sibling_eq_ok_iff.mpr ⟨hshort', hshort, hseen,
    Or.inr ⟨?_, .absent hgone, rfl⟩⟩, rfl, hmoved.entryAt_back hback hfree, ?_⟩
  · exact fun hsame => hseen (hsame.view_eq.trans hgone)
  · exact fun place => Tree.view_congr (hmoved.entryAt_back hback hfree place) fun _ => rfl

/-- An entry that was given a free name can be given the old one back. -/
theorem renames_back (hroot : d.PlainRoot root top) (ht : d.tree.WellFormed)
    (hsource : Path.IsComponent source) (htarget : Path.IsComponent target)
    (hfree : d.tree.entryAt (top ++ [target]) = none)
    (h : d.rename (Path.join root source) (Path.join root target) = .ok after) :
    ∃ last, after.rename (Path.join root target) (Path.join root source) = .ok last ∧
      d.Restored last := by
  obtain ⟨hnul, hnul', first, second, hfirst, hsecond, hrename⟩ := rename_eq_ok_iff.mp h
  rw [hroot.reach_entry_join hsource] at hfirst
  rw [hroot.reach_entry_join htarget] at hsecond
  obtain rfl := Path.eq_named_of_arrival hfirst
  obtain rfl := Path.eq_named_of_arrival hsecond
  obtain ⟨hne, rfl, last, hback, hrestored⟩ := renameAt_back ht hfree hrename
  have hmove : (Tree.Effect.move (top ++ [source]) (top ++ [target])).Concerns d.tree top
      [source, target] := .move (by simp) (by simp) hne
  have hplain := hroot.on hmove
  exact ⟨last, rename_eq_ok_iff.mpr ⟨hnul', hnul, _, _,
    (hplain.reach_entry_join htarget).trans hsecond,
    (hplain.reach_entry_join hsource).trans hfirst, hback⟩, hrestored⟩

/-- Copying to a free name makes a new file there. -/
theorem copy_to_free (hroot : d.PlainRoot root top) (htarget : Path.IsComponent target)
    (hfree : d.tree.view (top ++ [target]) = none) {count : Nat}
    (h : d.copy (Path.join root source) (Path.join root target) = (.ok count, after)) :
    Path.hasNul (Path.join root target) = false ∧ Path.tooLong target = false ∧
      Path.arrival .entry root top target = .ok (.named top target false) ∧
      ∃ bytes, after = d.withTree (d.tree.addObject (top ++ [target]) (.file bytes)) := by
  obtain ⟨-, held, opened, number, bytes, -, hopen, -, -, rfl⟩ := copy_eq_ok h
  obtain ⟨hnul, spot, hreach, hopened⟩ := openToWrite_eq_ok hopen
  rw [hroot.reach_join htarget fun _ number text hlink => by rw [hfree] at hlink; cases hlink]
    at hreach
  obtain rfl := Path.eq_named_of_arrival hreach
  obtain ⟨directory, name, ⟨⟩, hlong, ⟨-, rfl, rfl⟩ | ⟨old, hview, -⟩⟩ := openAt_eq_ok hopened
  · refine ⟨hnul, hlong, Path.arrival_entry_of_eq_ok hreach, bytes, ?_⟩
    rw [write, withTree, withTree, Tree.setContent_addObject]
    rfl
  · rw [hfree] at hview
    cases hview

end Disk

namespace Command

theorem Undoes.performs {said : String} (hundo : Undoes d.tree top c u)
    (hroot : d.PlainRoot root top) (ht : d.tree.WellFormed)
    (hnames : ∀ name ∈ c.operands, Path.IsComponent name) (h : Performs root d c after said) :
    ∃ last confirmation, Performs root after u last confirmation ∧ d.Restored last := by
  cases hundo with
  | create name =>
    have hname := hnames name (by simp)
    cases h with
    | create hcreate =>
      obtain ⟨hnul, directory, found, hreach, hlong, hview, rfl⟩ := Disk.create_eq_ok hcreate
      rw [hroot.reach_entry_join hname] at hreach
      cases Path.eq_named_of_arrival hreach
      obtain ⟨last, hremove, hrestored⟩ := Disk.removes_added hroot hname hnul hreach hlong
        (ht.view_eq_none_iff.mp hview) []
      exact ⟨last, _, .delete hremove, hrestored⟩
  | @rename source target hfree =>
    cases h with
    | rename hrename =>
      obtain ⟨last, hback, hrestored⟩ := Disk.renames_back hroot ht (hnames source (by simp))
        (hnames target (by simp)) hfree hrename
      exact ⟨last, _, .rename hback, hrestored⟩
  | @copy source target hfree =>
    have htarget := hnames target (by simp)
    cases h with
    | copy hcopy =>
      obtain ⟨hnul, hlong, hreach, bytes, rfl⟩ :=
        Disk.copy_to_free hroot htarget (ht.view_eq_none_iff.mpr hfree) hcopy
      obtain ⟨last, hremove, hrestored⟩ :=
        Disk.removes_added hroot htarget hnul hreach hlong hfree bytes
      exact ⟨last, _, .delete hremove, hrestored⟩

theorem Undoes.length_operands {t : Tree} (h : Undoes t top c u) :
    u.operands.length = u.kind.arity := by
  cases h with
  | create name => rfl
  | rename source hfree => rfl
  | copy source hfree => rfl

theorem Undoes.mem_operands {t : Tree} (h : Undoes t top c u) :
    ∀ name ∈ u.operands, name ∈ c.operands := by
  cases h with
  | create name => simp
  | rename source hfree => simp [or_comm]
  | copy source hfree => simp

end Command

/-- On a plain root a command that has been done can be undone right after: the command that undoes
it can be written, and every line that is read as that command is done and restores what was
there. -/
theorem execute_undone {strict : Bool} {line said : String} (ht : d.tree.WellFormed)
    (hroot : d.PlainRoot root top) (hline : Command.ofLine strict line = .ok c)
    (hundo : c.Undoes d.tree top u)
    (hdone : (Line.execute strict root line d).result = .ok (.done said)) :
    (∀ other, Command.ofLine other u.written = .ok u) ∧
    ∀ other back, Command.ofLine other back = .ok u →
      (∃ confirmation,
        (Line.execute other root back (Line.execute strict root line d).disk).result =
          .ok (.done confirmation)) ∧
      d.Restored (Line.execute other root back (Line.execute strict root line d).disk).disk := by
  have hoperands := Command.isOperand_of_ofLine hline
  refine ⟨?_, ?_⟩
  · exact Command.ofLine_written hundo.length_operands fun name hname =>
      hoperands name (hundo.mem_operands name hname)
  · intro other back hback
    have hperforms := (Line.done_iff_performs hline).mp ⟨hdone, rfl⟩
    obtain ⟨last, confirmation, hlast, hrestored⟩ :=
      hundo.performs hroot ht (Command.isComponent_of_ofLine hline) hperforms
    obtain ⟨hresult, hdisk⟩ := (Line.done_iff_performs hback).mpr hlast
    rw [hdisk]
    exact ⟨⟨confirmation, hresult⟩, hrestored⟩

/-- A full directory gets its name back, and nothing is left of a copy made through a link or of a
new file. -/
theorem execute_undone_attic :
    (Disk.attic.tree.WellFormed ∧ Disk.attic.PlainRoot "." []) ∧
    Disk.attic.Restored (Line.execute true "." "rename file n to d"
      (Line.execute true "." "rename file d to n" Disk.attic).disk).disk ∧
    Disk.attic.Restored (Line.execute true "." "delete file n"
      (Line.execute true "." "copy file l to n" Disk.attic).disk).disk ∧
    Disk.attic.Restored (Line.execute true "." "delete file n"
      (Line.execute true "." "create file n" Disk.attic).disk).disk := by
  have ht : Disk.attic.tree.WellFormed := Tree.wellFormed_of_forall_entries (by decide +kernel)
  have hroot : Disk.attic.PlainRoot "." [] := Disk.attic.plainRoot_here
  have hfree : Disk.attic.tree.entryAt ([] ++ ["n"]) = none := by decide +kernel
  have hdelete : Command.ofLine true "delete file n" = .ok ⟨.delete, ["n"]⟩ := by decide +kernel
  have hrename : Command.ofLine true "rename file d to n" = .ok ⟨.rename, ["d", "n"]⟩ := by
    decide +kernel
  have hback : Command.ofLine true "rename file n to d" = .ok ⟨.rename, ["n", "d"]⟩ := by
    decide +kernel
  have hcopy : Command.ofLine true "copy file l to n" = .ok ⟨.copy, ["l", "n"]⟩ := by
    decide +kernel
  have hcreate : Command.ofLine true "create file n" = .ok ⟨.create, ["n"]⟩ := by decide +kernel
  have hrenamed : (Line.execute true "." "rename file d to n" Disk.attic).result =
      .ok (.done "renamed d -> n") := by with_unfolding_all rfl
  have hcopied : (Line.execute true "." "copy file l to n" Disk.attic).result =
      .ok (.done "copied l -> n") := by with_unfolding_all rfl
  have hcreated : (Line.execute true "." "create file n" Disk.attic).result =
      .ok (.done "created n") := by with_unfolding_all rfl
  refine ⟨⟨ht, hroot⟩, ?_, ?_, ?_⟩
  · exact ((execute_undone ht hroot hrename (.rename "d" hfree) hrenamed).2 true _ hback).2
  · exact ((execute_undone ht hroot hcopy (.copy "l" hfree) hcopied).2 true _ hdelete).2
  · exact ((execute_undone ht hroot hcreate (.create "n") hcreated).2 true _ hdelete).2

end FileShell
