import FileShell.Proofs.Disk.Atomicity
import FileShell.Proofs.Disk.Operations
import FileShell.Proofs.Disk.Writing

/-!
# Copying a file

A copy refuses two paths that stand for one object, whichever links lead there, before anything is
opened (`Aliases`). What it does when it succeeds is collected in `Copied`: the target holds the
bytes of the source, under all its names, and nothing else has changed. Main statement:
`copy_exact`.
-/

namespace FileShell.Disk

/-- Two paths stand for one object. -/
inductive Aliases (d : Disk) (p q : String) : Prop
  | directory {place : Place} : d.target p = .ok (.directory place) →
      d.target q = .ok (.directory place) → Aliases d p q
  /-- Both lead to names of one file. -/
  | file {number : Nat} {held other : Bytes} : d.target p = .ok (.file number held) →
      d.target q = .ok (.file number other) → Aliases d p q

/-- What it means that the bytes of the file `source` have been copied to `target`, which stands
for the file of a number afterwards. -/
structure Copied (d after : Disk) (source target : String) (number : Nat) (bytes : Bytes) :
    Prop where
  /-- The source is another file, and it keeps its bytes. -/
  source_kept : ∃ held, held ≠ number ∧ d.target source = .ok (.file held bytes) ∧
    after.target source = .ok (.file held bytes)
  target_eq : after.target target = .ok (.file number bytes)
  /-- What a path stood for it still stands for; only the target shows other bytes. -/
  target_of_ok : ∀ path found, d.target path = .ok found →
    after.target path = .ok (found.rewritten number bytes)
  /-- By whatever path the target is found, it shows the new bytes. -/
  bytes_eq : ∀ path held, after.target path = .ok (.file number held) → held = bytes
  /-- No entry is removed, and no hard link is broken. -/
  view_of_some : ∀ place seen, d.tree.view place = some seen →
    after.tree.view place = some (seen.rewritten number bytes)
  contentOf_of_ne : ∀ n, n ≠ number → after.tree.contentOf n = d.tree.contentOf n
  /-- An entry is added only if the target did not exist, and then just one. -/
  entries : (∃ old, d.target target = .ok (.file number old)) ∧
      (∀ place, after.tree.entryAt place = d.tree.entryAt place) ∨
    d.target target = .error (.system .noEntry) ∧ d.tree.contentOf number = none ∧
      ∃ place, d.tree.view place = none ∧ after.tree.view place = some (.file number bytes) ∧
        ∀ other, other ≠ place → after.tree.entryAt other = d.tree.entryAt other

variable {d after : Disk} {source target : String}

theorem sameFile_of_aliases (h : d.Aliases source target) :
    d.sameFile source target = .ok true := by
  cases h with
  | directory hsource htarget => simp [sameFile, hsource, htarget, Target.same]
  | file hsource htarget => simp [sameFile, hsource, htarget, Target.same]

/-- A copy onto the source itself is refused. -/
theorem copy_of_aliases (h : d.Aliases source target) :
    d.copy source target = (.error (.atPath source .sameFile), d) := by
  rw [copy, sameFile_of_aliases h]

theorem contentOf_of_target_eq_file {path : String} {number : Nat} {bytes : Bytes}
    (h : d.target path = .ok (.file number bytes)) :
    d.tree.contentOf number = some (.file bytes) := by
  obtain ⟨-, spot, -, hspot⟩ := target_eq_ok h
  obtain ⟨directory, name, -, -, hview⟩ := targetAt_eq_file hspot
  exact Tree.contentOf_of_view hview

theorem target_of_free {path : String} {directory : Place} {name : String}
    (hnul : Path.hasNul path = false)
    (hreach : d.reach .object path = .ok (.named directory name false))
    (hlong : Path.tooLong name = false) (hview : d.tree.view (directory ++ [name]) = none) :
    d.target path = .error (.system .noEntry) := by
  rw [Disk.target, if_neg (by rw [hnul]; decide), hreach]
  simp only [targetAt, hlong, hview, Bool.false_eq_true, if_false]

/-- What has been opened to be written was a file, or was free. -/
theorem target_of_openAt {path : String} {directory : Place} {name : String} {opened : Disk}
    {number : Nat} (hnul : Path.hasNul path = false)
    (hreach : d.reach .object path = .ok (.named directory name false))
    (hopened : d.openAt (.named directory name false) = .ok (opened, number)) :
    (∃ old, d.target path = .ok (.file number old) ∧
      opened = d.withTree (d.tree.setContent number (.file []))) ∨
    d.target path = .error (.system .noEntry) ∧ d.tree.view (directory ++ [name]) = none ∧
      number = d.tree.freshNumber ∧
      opened = d.withTree (d.tree.addObject (directory ++ [name]) (.file [])) := by
  obtain ⟨_, _, hspot, hlong, ⟨hfree, hnumber, htree⟩ | ⟨old, hold, htree⟩⟩ :=
    openAt_eq_ok hopened
  · cases hspot
    exact Or.inr ⟨target_of_free hnul hreach hlong hfree, hfree, hnumber, htree⟩
  · cases hspot
    exact Or.inl ⟨old, target_eq_file hnul hreach hlong hold, htree⟩

theorem copied_of_copy_eq_ok {count : Nat} (h : d.copy source target = (.ok count, after)) :
    ∃ number bytes, count = bytes.length ∧ d.Copied after source target number bytes := by
  obtain ⟨hsame, held, opened, number, bytes, hread, hopen, hheld, rfl, rfl⟩ := copy_eq_ok h
  obtain ⟨before, hsource⟩ := openToRead_eq_ok hread
  obtain ⟨hnul, spot, hreach, hopened⟩ := openToWrite_eq_ok hopen
  obtain ⟨hempty, hothers, directory, name, rfl, hlong, hview⟩ := openAt_written hopened
  have hobject := reach_object_of_creation hreach
  have hcontent := contentOf_of_target_eq_file hsource
  have htarget := target_of_openAt hnul hobject hopened
  -- The target is a new file, or one that the source has been found not to be.
  have hne : held ≠ number := by
    rcases htarget with ⟨old, hold, -⟩ | ⟨-, -, rfl, -⟩
    · exact ne_of_sameFile_eq_false hsame hsource hold
    · rintro rfl
      rw [d.tree.contentOf_freshNumber] at hcontent
      cases hcontent
  have hbytes : before = bytes := by
    rw [hothers held hne, hcontent] at hheld
    cases hheld
    rfl
  subst hbytes
  have hfile : opened.tree.HoldsFile number := ⟨[], Tree.contentOf_of_view hview⟩
  have hwritten := hempty.trans (written_write hfile before)
  have hnow : (opened.write number before).tree.view (directory ++ [name]) =
      some (.file number before) := by
    rw [(written_write hfile before).tree.view_of_some _ _ hview, Tree.View.rewritten, if_pos rfl]
  refine ⟨number, before, rfl, ⟨held, hne, hsource, ?_⟩,
    target_eq_file hnul (hwritten.reach hobject) hlong hnow,
    fun path found hpath => hwritten.target hpath, ?_, hwritten.tree.view_of_some, ?_, ?_⟩
  · rw [hwritten.target hsource, Target.rewritten, if_neg hne]
  · intro path shown hpath
    have hshown := contentOf_of_target_eq_file hpath
    rw [write, withTree, Tree.contentOf_setContent, if_pos rfl] at hshown
    cases hshown
    rfl
  · intro n hn
    rw [write, withTree, Tree.contentOf_setContent, if_neg hn, hothers n hn]
  · rcases htarget with ⟨old, hold, rfl⟩ | ⟨hfree, hplace, rfl, rfl⟩
    · exact Or.inl ⟨⟨old, hold⟩, fun _ => rfl⟩
    · refine Or.inr ⟨hfree, d.tree.contentOf_freshNumber, directory ++ [name], hplace, hnow, ?_⟩
      have hnil : directory ++ [name] ≠ [] :=
        List.append_ne_nil_of_right_ne_nil directory (List.cons_ne_nil name [])
      exact fun other hother => d.tree.entryAt_addObject_of_ne hnil hother _

theorem openToWrite_of_target_eq_file {path : String} {number : Nat} {old : Bytes}
    (h : d.target path = .ok (.file number old)) :
    d.openToWrite path = .ok (d.withTree (d.tree.setContent number (.file [])), number) := by
  obtain ⟨hnul, spot, hreach, hspot⟩ := target_eq_ok h
  obtain ⟨directory, name, rfl, hlong, hview⟩ := targetAt_eq_file hspot
  have hfollows : Aim.object.follows false = Aim.creation.follows false := rfl
  rw [openToWrite, if_neg (by rw [hnul]; decide), reach_of_follows hfollows hreach]
  simp only [openAt, hlong, hview, Bool.false_eq_true, if_false]

/-- One file can always be copied over another. -/
theorem copy_of_files {m n : Nat} {bytes old : Bytes}
    (hsource : d.target source = .ok (.file m bytes))
    (htarget : d.target target = .ok (.file n old)) (hne : m ≠ n) :
    ∃ after, d.copy source target = (.ok bytes.length, after) := by
  have hsame : d.sameFile source target = .ok false := by
    simp [sameFile, hsource, htarget, Target.same, hne]
  have hread : d.openToRead source = .ok m := by rw [openToRead, hsource]
  have hcontent : (d.tree.setContent n (.file [])).contentOf m = some (.file bytes) := by
    rw [Tree.contentOf_setContent, if_neg hne, contentOf_of_target_eq_file hsource]
  refine ⟨(d.withTree (d.tree.setContent n (.file []))).write n bytes, ?_⟩
  simp only [copy, hsame, copyBytes, hread, openToWrite_of_target_eq_file htarget, transfer,
    withTree, hcontent]

theorem sameFile_message (path : String) : (Fault.atPath path .sameFile).message =
    path ++ ": source and destination are the same file" := by
  have htext : ": source and destination are the same file" = ": " ++ Fault.sameFile.message := by
    decide +kernel
  rw [Fault.message, htext, String.append_assoc]

/-- With links followed on both sides: a copy between paths that stand for one object is refused as
invalid and changes nothing; one that succeeds has made the target a file with the bytes of the source and
has left all else as it was; and a file can be copied over any other one. -/
theorem copy_exact (d : Disk) (source target : String) :
    (d.Aliases source target → d.copy source target = (.error (.atPath source .sameFile), d) ∧
      (Fault.atPath source .sameFile).kind = .invalidInput ∧
      (Fault.atPath source .sameFile).message =
        source ++ ": source and destination are the same file") ∧
    (∀ count after, d.copy source target = (.ok count, after) →
      ∃ number bytes, count = bytes.length ∧ d.Copied after source target number bytes) ∧
    ∀ m n bytes old, d.target source = .ok (.file m bytes) → d.target target = .ok (.file n old) →
      m ≠ n → ∃ after, d.copy source target = (.ok bytes.length, after) :=
  ⟨fun h => ⟨copy_of_aliases h, rfl, sameFile_message source⟩, fun _ _ => copied_of_copy_eq_ok, fun _ _ _ _ => copy_of_files⟩

/-- A file beside one with two names, a link to the second of these, and a link that leads
nowhere. -/
def mirrored : Disk where
  tree := {
    entries := [(["a"], .object 1), (["b"], .object 2), (["c"], .object 2), (["l"], .object 3),
      (["f"], .object 4)]
    objects := [(1, .file [112]), (2, .file [113]), (3, .link "c"), (4, .link "new")] }

/-- Copying the first file to the link writes the file behind it, which both names show, and
copying it to the other link makes a file. The file with two names is not copied onto itself. -/
theorem copy_exact_mirrored :
    (mirrored.Aliases "/b" "/l" ∧
      mirrored.copy "/b" "/l" = (.error (.atPath "/b" .sameFile), mirrored)) ∧
    (mirrored.target "/a" = .ok (.file 1 [112]) ∧ mirrored.target "/l" = .ok (.file 2 [113]) ∧
      ∃ after number, mirrored.copy "/a" "/l" = (.ok 1, after) ∧
        mirrored.Copied after "/a" "/l" number [112] ∧ after.target "/b" = .ok (.file 2 [112])) ∧
    ∃ after number, mirrored.copy "/a" "/f" = (.ok 1, after) ∧
      mirrored.Copied after "/a" "/f" number [112] ∧ after.target "/new" = .ok (.file 5 [112]) := by
  have ha : mirrored.target "/a" = .ok (.file 1 [112]) := by with_unfolding_all rfl
  have hb : mirrored.target "/b" = .ok (.file 2 [113]) := by with_unfolding_all rfl
  have hl : mirrored.target "/l" = .ok (.file 2 [113]) := by with_unfolding_all rfl
  have halias : mirrored.Aliases "/b" "/l" := .file hb hl
  have hf : mirrored.copy "/a" "/f" = (.ok 1, (mirrored.copy "/a" "/f").2) := by
    with_unfolding_all rfl
  obtain ⟨written, hwritten⟩ := (copy_exact mirrored "/a" "/l").2.2 1 2 [112] [113] ha hl (by decide)
  have hafter : written = (mirrored.copy "/a" "/l").2 := by rw [hwritten]
  obtain ⟨number, bytes, -, hcopied⟩ := (copy_exact mirrored "/a" "/l").2.1 1 written hwritten
  obtain ⟨made, held, -, hmade⟩ := (copy_exact mirrored "/a" "/f").2.1 1 _ hf
  -- What has been copied is what the source held.
  have hbytes : bytes = [112] := by
    obtain ⟨n, -, hsource, -⟩ := hcopied.source_kept
    rw [ha] at hsource
    cases hsource
    rfl
  have hheld : held = [112] := by
    obtain ⟨n, -, hsource, -⟩ := hmade.source_kept
    rw [ha] at hsource
    cases hsource
    rfl
  subst hbytes hheld
  refine ⟨⟨halias, ((copy_exact mirrored "/b" "/l").1 halias).1⟩,
    ⟨ha, hl, written, number, hwritten, hcopied, ?_⟩, _, made, hf, hmade, ?_⟩
  · rw [hafter]
    with_unfolding_all rfl
  · with_unfolding_all rfl

end FileShell.Disk
