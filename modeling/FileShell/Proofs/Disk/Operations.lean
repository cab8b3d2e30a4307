import FileShell.Proofs.Disk.Contents
import FileShell.FileAction

/-!
# What operations need and do

Everything that the success of an operation of the disk implies: where its paths lead, what it has
found there, and the disk after it.
-/

namespace FileShell

/-- Of all faults only a missing entry is that something is not found. -/
theorem Fault.cause_eq_noEntry {fault : Fault} (h : fault.kind = .notFound) :
    fault.cause = .system .noEntry := by
  induction fault with
  | system cause =>
    cases cause with
    | noEntry => rfl
    | _ => cases h
  | atPath path cause ih => exact ih h
  | _ => cases h

namespace Disk

variable {d after : Disk} {path source target : String}

theorem createAt_eq_ok {content : Content} {spot : Spot} (h : d.createAt content spot = .ok after) :
    ∃ directory name, spot = .named directory name false ∧ Path.tooLong name = false ∧
      d.tree.view (directory ++ [name]) = none ∧
      after = d.withTree (d.tree.addObject (directory ++ [name]) content) := by
  unfold createAt at h
  split at h
  · cases h
  · next directory name slashed =>
    split at h
    · cases h
    · next hslash =>
      have hfalse : slashed = false := by simpa using hslash
      subst hfalse
      split at h
      · cases h
      · next hlong =>
        split at h
        · cases h
        · next hview =>
          cases h
          exact ⟨directory, name, rfl, by simpa using hlong, hview, rfl⟩

theorem createObject_eq_ok {content : Content} (h : d.createObject path content = .ok after) :
    Path.hasNul path = false ∧ ∃ directory name,
      d.reach .entry path = .ok (.named directory name false) ∧ Path.tooLong name = false ∧
      d.tree.view (directory ++ [name]) = none ∧
      after = d.withTree (d.tree.addObject (directory ++ [name]) content) := by
  unfold createObject at h
  split at h
  · cases h
  · next hnul =>
    refine ⟨by simpa using hnul, ?_⟩
    split at h
    · cases h
    · next spot hreach =>
      split at h
      · cases h
      · next made hcreate =>
        cases h
        obtain ⟨directory, name, rfl, hlong, hview, rfl⟩ := createAt_eq_ok hcreate
        exact ⟨directory, name, hreach, hlong, hview, rfl⟩

theorem create_eq_ok (h : d.create path = .ok after) :
    Path.hasNul path = false ∧ ∃ directory name,
      d.reach .entry path = .ok (.named directory name false) ∧ Path.tooLong name = false ∧
      d.tree.view (directory ++ [name]) = none ∧
      after = d.withTree (d.tree.addObject (directory ++ [name]) (.file [])) :=
  createObject_eq_ok h

theorem removeAt_eq_ok {spot : Spot} (h : d.removeAt spot = .ok after) :
    ∃ directory name seen, spot = .named directory name false ∧ Path.tooLong name = false ∧
      d.tree.view (directory ++ [name]) = some seen ∧ seen.isDirectory = false ∧
      after = d.withTree (d.tree.removeEntry (directory ++ [name])) := by
  unfold removeAt at h
  split at h
  · cases h
  · next directory name slashed =>
    split at h
    · cases h
    · next hlong =>
      split at h
      · cases h
      · cases h
      · next seen hnot hview =>
        have hkind : seen.isDirectory = false := by
          cases seen with
          | directory => exact absurd rfl hnot
          | file number bytes => rfl
          | link number target => rfl
        split at h
        · cases h
        · next hslash =>
          have hfalse : slashed = false := by simpa using hslash
          subst hfalse
          cases h
          exact ⟨directory, name, seen, rfl, by simpa using hlong, hview, hkind, rfl⟩

theorem remove_eq_ok (h : d.remove path = .ok after) :
    ∃ directory name seen, d.reach .entry path = .ok (.named directory name false) ∧
      d.tree.view (directory ++ [name]) = some seen ∧ seen.isDirectory = false ∧
      after = d.withTree (d.tree.removeEntry (directory ++ [name])) := by
  unfold remove at h
  split at h
  · cases h
  · split at h
    · cases h
    · next spot hreach =>
      split at h
      · cases h
      · next left hremove =>
        cases h
        obtain ⟨directory, name, seen, rfl, -, hview, hkind, rfl⟩ := removeAt_eq_ok hremove
        exact ⟨directory, name, seen, hreach, hview, hkind, rfl⟩

/-- Nothing that can be removed is in the way: a name that is reached is that of a file or link. -/
theorem remove_of_view {directory : Place} {name : String} {seen : Tree.View}
    (hnul : Path.hasNul path = false)
    (hreach : d.reach .entry path = .ok (.named directory name false))
    (hlong : Path.tooLong name = false) (hview : d.tree.view (directory ++ [name]) = some seen)
    (hkind : seen.isDirectory = false) :
    d.remove path = .ok (d.withTree (d.tree.removeEntry (directory ++ [name]))) := by
  have hspot : d.removeAt (.named directory name false) =
      .ok (d.withTree (d.tree.removeEntry (directory ++ [name]))) := by
    rw [removeAt, if_neg (by rw [hlong]; decide), hview]
    cases seen with
    | directory => cases hkind
    | file number bytes => rfl
    | link number text => rfl
  rw [remove, if_neg (by rw [hnul]; decide), hreach]
  simp only [hspot]

/-- A path is not added to a fault before it is reported. -/
theorem cause_of_target_eq_error {fault : Fault} (h : d.target path = .error fault) :
    fault.cause = fault := by
  unfold target at h
  split at h
  · cases h
    rfl
  · split at h
    · cases h
      rfl
    · split at h
      · cases h
        rfl
      · cases h

/-- Two paths are found to be different if their targets are, or if the second one is free. -/
theorem sameFile_eq_false (h : d.sameFile source target = .ok false) :
    ∃ found, d.target source = .ok found ∧
      ((∃ other, d.target target = .ok other ∧ found.same other = false) ∨
        d.target target = .error (.system .noEntry)) := by
  unfold sameFile at h
  split at h
  · cases h
  · next found hsource =>
    refine ⟨found, hsource, ?_⟩
    split at h
    · next other htarget => exact Or.inl ⟨other, htarget, Except.ok.inj h⟩
    · next fault htarget =>
      split at h
      · next hkind =>
        rw [← cause_of_target_eq_error htarget, Fault.cause_eq_noEntry hkind] at htarget
        exact Or.inr htarget
      · cases h

/-- Files that are found to be different have different numbers. -/
theorem ne_of_sameFile_eq_false {m n : Nat} {bytes old : Bytes}
    (h : d.sameFile source target = .ok false) (hsource : d.target source = .ok (.file m bytes))
    (htarget : d.target target = .ok (.file n old)) : m ≠ n := by
  rintro rfl
  obtain ⟨found, hfound, ⟨other, hother, hdiffer⟩ | hfree⟩ := sameFile_eq_false h
  · rw [hsource, Except.ok.injEq] at hfound
    rw [htarget, Except.ok.injEq] at hother
    subst hfound hother
    simp [Target.same] at hdiffer
  · rw [htarget] at hfree
    cases hfree

theorem openToRead_eq_ok {number : Nat} (h : d.openToRead path = .ok number) :
    ∃ bytes, d.target path = .ok (.file number bytes) := by
  unfold openToRead at h
  split at h
  · cases h
  · cases h
  · next m bytes htarget =>
    cases h
    exact ⟨bytes, htarget⟩

theorem copy_eq_ok {count : Nat} (h : d.copy source target = (.ok count, after)) :
    d.sameFile source target = .ok false ∧
      ∃ held opened number bytes, d.openToRead source = .ok held ∧
        d.openToWrite target = .ok (opened, number) ∧
        opened.tree.contentOf held = some (.file bytes) ∧ count = bytes.length ∧
        after = opened.write number bytes := by
  unfold copy at h
  split at h
  · cases h
  · cases h
  · next hsame =>
    refine ⟨hsame, ?_⟩
    split at h
    · cases h
    · next found disk hcopy =>
      cases h
      unfold copyBytes at hcopy
      split at hcopy
      · cases hcopy
      · next held hread =>
        split at hcopy
        · cases hcopy
        · next opened number hopen =>
          unfold transfer at hcopy
          split at hcopy
          · next bytes hheld =>
            cases hcopy
            exact ⟨held, opened, number, bytes, hread, hopen, hheld, rfl, rfl⟩
          · cases hcopy

end Disk

end FileShell
