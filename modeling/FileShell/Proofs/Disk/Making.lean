import Mathlib.Logic.Relation
import FileShell.Disk.Making
import FileShell.Proofs.Disk.WellFormed

/-!
# Trees that are put together and read off

A disk is sound if its tree is well-formed and it is seen from a directory. Making directories,
links, hard links and files keeps it so (`Makes.sound`), and so every tree that is put together from
nothing is well-formed (`wellFormed_of_makes`). The list of what is below a directory holds all that
is seen there and nothing else, in the order of the paths (`mem_listing_iff`, `sorted_listing`).
-/

namespace FileShell.Disk

/-- A disk on which paths can be looked up. -/
structure Sound (d : Disk) : Prop where
  wellFormed : d.tree.WellFormed
  cwd_eq : d.tree.entryAt d.cwd = some .directory

/-- One step in putting a tree together. -/
inductive Makes (d : Disk) : Disk → Prop
  | directory {path : String} {after : Disk} : d.makeDirectory path = .ok after → Makes d after
  | link {path target : String} {after : Disk} :
      d.makeLink path target = .ok after → Makes d after
  | hardLink {existing path : String} {after : Disk} :
      d.makeHardLink existing path = .ok after → Makes d after
  | file {path : String} {bytes : Bytes} {after : Disk} :
      d.writeTo path bytes = .ok after → Makes d after

variable {d after : Disk} {path existing target : String} {directory : Place} {name : String}
  {entry : Entry}

theorem addEntry_eq_ok (h : d.addEntry path entry = .ok after) :
    ∃ directory name slashed, d.reach .entry path = .ok (.named directory name slashed) ∧
      Path.tooLong name = false ∧ d.tree.view (directory ++ [name]) = none ∧
      after = d.withTree (d.tree.setEntry (directory ++ [name]) entry) := by
  unfold addEntry at h
  split at h
  · cases h
  · split at h
    · cases h
    · next spot hreach =>
      split at h
      · cases h
      · next made hmade =>
        cases h
        unfold addEntryAt at hmade
        split at hmade
        · cases hmade
        · next directory name slashed =>
          split at hmade
          · cases hmade
          · next hlong =>
            split at hmade
            · cases hmade
            · next hview =>
              cases hmade
              exact ⟨directory, name, slashed, hreach, by simpa using hlong, hview, rfl⟩

/-- A hard link is made to an object that has a name. -/
theorem makeHardLink_eq_ok (h : d.makeHardLink existing path = .ok after) :
    ∃ place number, d.tree.entryAt place = some (.object number) ∧
      d.addEntry path (.object number) = .ok after := by
  unfold makeHardLink at h
  split at h
  · cases h
  · cases h
  · split at h
    · cases h
    · cases h
    · next number hentry => exact ⟨_, number, hentry, h⟩

namespace Sound

/-- A place that is free is not the current directory. -/
theorem cwd_ne (hd : d.Sound) (hview : d.tree.view (directory ++ [name]) = none) :
    d.cwd ≠ directory ++ [name] := by
  intro heq
  have hcwd := hd.cwd_eq
  rw [heq, hd.wellFormed.view_eq_none_iff.mp hview] at hcwd
  cases hcwd

theorem addEntry (hd : d.Sound) (h : d.addEntry path entry = .ok after)
    (hheld : ∀ number, entry = .object number → d.tree.contentOf number ≠ none) : after.Sound := by
  obtain ⟨directory, name, slashed, hreach, hlong, hview, rfl⟩ := addEntry_eq_ok h
  have hbase := reach_base hd.wellFormed.closed hd.cwd_eq hreach
  refine ⟨hd.wellFormed.setEntry hbase hlong hview hheld, ?_⟩
  have hne : directory ++ [name] ≠ [] :=
    List.append_ne_nil_of_right_ne_nil _ (List.cons_ne_nil _ _)
  rw [withTree, Tree.entryAt_setEntry _ hne, if_neg (hd.cwd_ne hview)]
  exact hd.cwd_eq

theorem addObject (hd : d.Sound) {aim : Aim} {slashed : Bool} {content : Content}
    (hreach : d.reach aim path = .ok (.named directory name slashed))
    (hlong : Path.tooLong name = false) (hview : d.tree.view (directory ++ [name]) = none) :
    (d.withTree (d.tree.addObject (directory ++ [name]) content)).Sound := by
  have hbase := reach_base hd.wellFormed.closed hd.cwd_eq hreach
  refine ⟨hd.wellFormed.addObject hbase hlong hview content, ?_⟩
  have hne : directory ++ [name] ≠ [] :=
    List.append_ne_nil_of_right_ne_nil _ (List.cons_ne_nil _ _)
  rw [withTree, Tree.entryAt_addObject_of_ne _ hne (hd.cwd_ne hview)]
  exact hd.cwd_eq

theorem setContent (hd : d.Sound) (number : Nat) (content : Content) :
    (d.withTree (d.tree.setContent number content)).Sound :=
  ⟨hd.wellFormed.setContent number content, hd.cwd_eq⟩

theorem writeTo (hd : d.Sound) {bytes : Bytes} (h : d.writeTo path bytes = .ok after) :
    after.Sound := by
  unfold Disk.writeTo at h
  split at h
  · cases h
  · next opened number hopen =>
    cases h
    obtain ⟨-, spot, hreach, hspot⟩ := openToWrite_eq_ok hopen
    have hopened : opened.Sound := by
      obtain ⟨directory, name, rfl, hlong, ⟨hview, -, rfl⟩ | ⟨old, -, rfl⟩⟩ := openAt_eq_ok hspot
      · exact hd.addObject hreach hlong hview
      · exact hd.setContent number _
    exact hopened.setContent number _

end Sound

/-- No step breaks a disk. -/
theorem Makes.sound (h : d.Makes after) (hd : d.Sound) : after.Sound := by
  cases h with
  | directory h => exact hd.addEntry h fun number heq => by cases heq
  | link h =>
    obtain ⟨-, directory, name, hreach, hlong, hview, rfl⟩ := createObject_eq_ok h
    exact hd.addObject hreach hlong hview
  | hardLink h =>
    obtain ⟨place, number, hentry, h⟩ := makeHardLink_eq_ok h
    refine hd.addEntry h fun other heq => ?_
    rw [← Entry.object.inj heq]
    exact hd.wellFormed.held place number hentry
  | file h => exact hd.writeTo h

theorem sound_of_makes (h : Relation.ReflTransGen Makes d after) (hd : d.Sound) :
    after.Sound := by
  induction h with
  | refl => exact hd
  | tail _ hstep ih => exact hstep.sound ih

/-- Every tree that is put together from nothing is well-formed. -/
theorem wellFormed_of_makes (h : Relation.ReflTransGen Makes {} d) : d.tree.WellFormed := by
  have hempty : ({} : Disk).Sound :=
    ⟨Tree.wellFormed_of_forall_entries (List.forall_mem_nil _), rfl⟩
  exact (sound_of_makes h hempty).wellFormed

section Listing

variable {top : Place} {seen : Tree.View}

theorem exists_entry_of_view {place : Place} (h : d.tree.view place = some seen) :
    ∃ entry, d.tree.entryAt place = some entry := by
  unfold Tree.view at h
  split at h
  · cases h
  · next hentry => exact ⟨_, hentry⟩
  · next hentry => exact ⟨_, hentry⟩

/-- What is listed below a directory is what is seen there. -/
theorem mem_listing_iff : (path, seen) ∈ d.listing top ↔
    ∃ rest, rest ≠ [] ∧ path = "/".intercalate rest ∧ d.tree.view (top ++ rest) = some seen := by
  rw [listing, List.mem_mergeSort, List.mem_filterMap]
  constructor
  · rintro ⟨⟨place, entry⟩, -, h⟩
    split at h
    · next hbelow =>
      obtain ⟨rest, rfl⟩ := List.isPrefixOf_iff_prefix.mp hbelow.1
      obtain ⟨view, hview, heq⟩ := Option.map_eq_some_iff.mp h
      cases heq
      refine ⟨rest, fun hnil => hbelow.2 (by simp [hnil]), ?_, hview⟩
      rw [List.drop_left]
    · cases h
  · rintro ⟨rest, hne, rfl, hview⟩
    obtain ⟨entry, hentry⟩ := exists_entry_of_view hview
    have hplace : top ++ rest ≠ [] := List.append_ne_nil_of_right_ne_nil top hne
    refine ⟨(top ++ rest, entry), Tree.mem_entries_of_entryAt hplace hentry, ?_⟩
    rw [if_pos ⟨List.isPrefixOf_iff_prefix.mpr (List.prefix_append top rest), by simpa using hne⟩]
    simp only [hview, Option.map_some, List.drop_left]

theorem sorted_listing (d : Disk) (top : Place) :
    (d.listing top).Pairwise fun a b => a.1 ≤ b.1 := by
  have htrans : ∀ a b c : String × Tree.View, textLE a.1 b.1 = true → textLE b.1 c.1 = true →
      textLE a.1 c.1 = true := by
    intro a b c hab hbc
    exact decide_eq_true (String.le_trans (of_decide_eq_true hab) (of_decide_eq_true hbc))
  have htotal : ∀ a b : String × Tree.View, (textLE a.1 b.1 || textLE b.1 a.1) = true := by
    intro a b
    simpa [textLE] using String.le_total a.1 b.1
  exact (List.pairwise_mergeSort htrans htotal _).imp of_decide_eq_true

end Listing

end FileShell.Disk
