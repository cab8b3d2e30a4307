import FileShell.Proofs.Disk.Entries
import FileShell.Proofs.Disk.Joining
import FileShell.Proofs.Disk.Renaming

/-!
# Lines stay in the root directory

What a line can change on the disk, when its operands are names in an existing directory.
`Confined` lists it, with one case for each kind of command and two for copying, which alone
follows a link at its target. Names that begin with a dot are no operands, so that only a copy
through a link touches what they stand for (`KeepsHidden`). Main statement: `execute_confined`.
-/

namespace FileShell

/-- Only the entries at some places and the contents of some objects are not as before. There may
be objects that did not exist. -/
structure Disk.Frame (d after : Disk) (places : Place → Prop) (numbers : Nat → Prop) : Prop where
  entryAt : ∀ place, ¬ places place → after.tree.entryAt place = d.tree.entryAt place
  contentOf : ∀ number content, d.tree.contentOf number = some content → ¬ numbers number →
    after.tree.contentOf number = some content

/-- At a place there is a file of which the disk `d` knew nothing. -/
def Disk.NewFile (after d : Disk) (place : Place) : Prop :=
  ∃ number bytes, d.tree.contentOf number = none ∧
    after.tree.view place = some (.file number bytes)

namespace Disk

variable {d : Disk} {place : Place}

theorem NewFile.of_freshNumber {after : Disk} {bytes : Bytes}
    (hentry : after.tree.entryAt place = some (.object d.tree.freshNumber))
    (hcontent : after.tree.contentOf d.tree.freshNumber = some (.file bytes)) :
    after.NewFile d place :=
  ⟨_, bytes, d.tree.contentOf_freshNumber, Tree.view_of_entryAt hentry hcontent⟩

theorem contentOf_write (d : Disk) (number : Nat) (bytes : Bytes) :
    (d.write number bytes).tree.contentOf number = some (.file bytes) := by
  rw [write, withTree, Tree.contentOf_setContent, if_pos rfl]

theorem frame_addObject (d : Disk) (hplace : place ≠ []) (content : Content) :
    d.Frame (d.withTree (d.tree.addObject place content)) (· = place) fun _ => False where
  entryAt := by
    intro other hother
    have hset := (d.tree.setContent d.tree.freshNumber content).entryAt_setEntry hplace
      (.object d.tree.freshNumber) other
    rw [if_neg hother] at hset
    exact hset
  contentOf := by
    rintro number held hheld -
    have hne : number ≠ d.tree.freshNumber := by
      rintro rfl
      rw [d.tree.contentOf_freshNumber] at hheld
      cases hheld
    have hset := d.tree.contentOf_setContent number d.tree.freshNumber content
    rw [if_neg hne, hheld] at hset
    exact hset

theorem frame_removeEntry (d : Disk) (hplace : place ≠ []) :
    d.Frame (d.withTree (d.tree.removeEntry place)) (· = place) fun _ => False where
  entryAt := by
    intro other hother
    have hremove := d.tree.entryAt_removeEntry hplace other
    rw [if_neg hother] at hremove
    exact hremove
  contentOf := fun _ _ hheld _ => hheld

theorem frame_setContent (d : Disk) (number : Nat) (content : Content) :
    d.Frame (d.withTree (d.tree.setContent number content)) (fun _ => False) (· = number) where
  entryAt := fun _ _ => rfl
  contentOf := by
    intro other held hheld hother
    have hset := d.tree.contentOf_setContent other number content
    rw [if_neg hother, hheld] at hset
    exact hset

theorem frame_move (d : Disk) (source target : Place) :
    d.Frame (d.withTree (d.tree.move source target))
      (fun place => Tree.within source place = true ∨ Tree.within target place = true)
      fun _ => False where
  entryAt := by
    intro place hplace
    rw [not_or, Bool.not_eq_true, Bool.not_eq_true] at hplace
    exact d.tree.entryAt_move_other hplace.1 hplace.2
  contentOf := fun _ _ hheld _ => hheld

/-- Writing an object that did not exist before, or that may change anyway, is within the frame. -/
theorem Frame.write {after : Disk} {places : Place → Prop} {numbers : Nat → Prop}
    (h : d.Frame after places numbers) (number : Nat) (bytes : Bytes)
    (hnumber : ∀ content, d.tree.contentOf number = some content → numbers number) :
    d.Frame (after.write number bytes) places numbers where
  entryAt := h.entryAt
  contentOf := by
    intro other held hheld hother
    have hne : other ≠ number := by
      rintro rfl
      exact hother (hnumber held hheld)
    exact (after.frame_setContent number (.file bytes)).contentOf other held
      (h.contentOf other held hheld hother) hne

end Disk

namespace Command

/-- What a command may change when its operands are names in the directory `top`. -/
inductive Confined (root : String) (top : Place) (d : Disk) : Command → Disk → Prop
  | unchanged (c : Command) : Confined root top d c d
  | create {name : String} {after : Disk} : d.tree.view (top ++ [name]) = none →
      after.NewFile d (top ++ [name]) → d.Frame after (· = top ++ [name]) (fun _ => False) →
      Confined root top d ⟨.create, [name]⟩ after
  | delete {name : String} {after : Disk} : after.tree.entryAt (top ++ [name]) = none →
      d.Frame after (· = top ++ [name]) (fun _ => False) →
      Confined root top d ⟨.delete, [name]⟩ after
  /-- What has been replaced had nothing below it. -/
  | rename {source target : String} {after : Disk} : source ≠ target →
      d.Frame after (fun place => Tree.within (top ++ [source]) place = true ∨
        Tree.within (top ++ [target]) place = true) (fun _ => False) →
      (∀ rest, after.tree.entryAt (top ++ [target] ++ rest) =
        d.tree.entryAt (top ++ [source] ++ rest)) →
      (∀ rest, after.tree.entryAt (top ++ [source] ++ rest) = none) →
      (d.tree.Closed → ∀ rest ≠ [], d.tree.entryAt (top ++ [target] ++ rest) = none) →
      Confined root top d ⟨.rename, [source, target]⟩ after
  /-- A file is made, under the name of the target or where a link of that name leads. -/
  | copyNew {source target : String} {directory : Place} {name : String} {after : Disk} :
      d.tree.view (directory ++ [name]) = none →
      d.reach .object (Path.join root target) = .ok (.named directory name false) →
      (directory ++ [name] = top ++ [target] ∨
        ∃ number text, d.tree.view (top ++ [target]) = some (.link number text)) →
      after.NewFile d (directory ++ [name]) →
      d.Frame after (· = directory ++ [name]) (fun _ => False) →
      Confined root top d ⟨.copy, [source, target]⟩ after
  /-- The file that the target stands for is written. -/
  | copyOver {source target : String} {number : Nat} {bytes : Bytes} {after : Disk} :
      d.target (Path.join root target) = .ok (.file number bytes) →
      (d.tree.entryAt (top ++ [target]) = some (.object number) ∨
        ∃ other text, d.tree.view (top ++ [target]) = some (.link other text)) →
      after.tree.HoldsFile number → d.Frame after (fun _ => False) (· = number) →
      Confined root top d ⟨.copy, [source, target]⟩ after

/-- A name in the directory `top` that is no operand keeps its entry. An entry appears there only
when a file is copied to a link that leads there, and the content of its object changes only when
a file is copied to another name of that object or to a link. -/
structure KeepsHidden (root : String) (top : Place) (d : Disk) (c : Command) (after : Disk)
    (name : String) : Prop where
  stays : d.tree.view (top ++ [name]) ≠ none →
    after.tree.entryAt (top ++ [name]) = d.tree.entryAt (top ++ [name])
  appears : after.tree.entryAt (top ++ [name]) ≠ d.tree.entryAt (top ++ [name]) →
    ∃ source target number text, c = ⟨.copy, [source, target]⟩ ∧
      d.tree.view (top ++ [target]) = some (.link number text) ∧
      d.reach .object (Path.join root target) = .ok (.named top name false)
  rewritten : ∀ number content, d.tree.entryAt (top ++ [name]) = some (.object number) →
    d.tree.contentOf number = some content → after.tree.contentOf number ≠ some content →
    ∃ source target bytes, c = ⟨.copy, [source, target]⟩ ∧
      d.target (Path.join root target) = .ok (.file number bytes) ∧
      (d.tree.entryAt (top ++ [target]) = some (.object number) ∨
        ∃ other text, d.tree.view (top ++ [target]) = some (.link other text))

variable {root : String} {top : Place} {d after : Disk} {c : Command}

theorem Performs.confined {confirmation : String} (h : Performs root d c after confirmation)
    (hroot : d.target root = .ok (.directory top))
    (hnames : ∀ name ∈ c.operands, Path.IsComponent name) : Confined root top d c after := by
  have hne : ∀ (directory : Place) (name : String), directory ++ [name] ≠ [] :=
    fun directory name => List.append_ne_nil_of_right_ne_nil _ (List.cons_ne_nil name [])
  cases h with
  | @create name _ hcreate =>
    obtain ⟨-, directory, found, hreach, -, hview, rfl⟩ := Disk.create_eq_ok hcreate
    obtain ⟨-, ⟨⟩⟩ := (Disk.reach_entry_join_iff hroot (hnames name (by simp))).mp hreach
    exact .create hview (.of_freshNumber (d.tree.entryAt_addObject (hne top name) _)
      (d.tree.contentOf_addObject _ _)) (d.frame_addObject (hne top name) _)
  | @delete name _ hdelete =>
    obtain ⟨directory, found, seen, hreach, -, -, rfl⟩ := Disk.remove_eq_ok hdelete
    obtain ⟨-, ⟨⟩⟩ := (Disk.reach_entry_join_iff hroot (hnames name (by simp))).mp hreach
    refine .delete ?_ (d.frame_removeEntry (hne top name))
    rw [Disk.withTree, Tree.entryAt_removeEntry _ (hne top name), if_pos rfl]
  | @rename source target _ hrename =>
    obtain ⟨directory, name, slashed, other, newName, newSlashed, hsource, htarget, hafter⟩ :=
      Disk.rename_eq_ok hrename
    obtain ⟨-, ⟨⟩⟩ := (Disk.reach_entry_join_iff hroot (hnames source (by simp))).mp hsource
    obtain ⟨-, ⟨⟩⟩ := (Disk.reach_entry_join_iff hroot (hnames target (by simp))).mp htarget
    rcases hafter with rfl | ⟨hplaces, hempty, rfl⟩
    -- Two names of one thing both stay.
    · exact .unchanged _
    · have hlen : (top ++ [source]).length = (top ++ [target]).length := by simp
      refine .rename ?_ (d.frame_move _ _) ?_ ?_ ?_
      · rintro rfl
        exact hplaces rfl
      · exact d.tree.entryAt_move_target hlen hplaces
      · exact d.tree.entryAt_move_source hlen hplaces
      · exact fun hclosed rest hrest => hclosed.entryAt_below_of_names hempty hrest
  | @copy source target count _ hcopy =>
    obtain ⟨-, -, opened, number, bytes, -, hopen, -, -, rfl⟩ := Disk.copy_eq_ok hcopy
    obtain ⟨hnul, spot, hreach, hopened⟩ := Disk.openToWrite_eq_ok hopen
    have hspot := Disk.reach_creation_join hroot (hnames target (by simp)) hreach
    -- The target is opened where the walk to it ends, which is elsewhere only behind a link.
    obtain ⟨directory, name, rfl, hlong, ⟨hview, rfl, rfl⟩ | ⟨old, hview, rfl⟩⟩ :=
      Disk.openAt_eq_ok hopened
    · refine .copyNew hview (Disk.reach_object_of_creation hreach) ?_
        (.of_freshNumber (d.tree.entryAt_addObject (hne directory name) _)
          (Disk.contentOf_write _ _ bytes))
        ((d.frame_addObject (hne directory name) _).write _ bytes ?_)
      · rcases hspot with hspot | hlink
        · cases hspot
          exact Or.inl rfl
        · exact Or.inr hlink
      · intro content hcontent
        rw [d.tree.contentOf_freshNumber] at hcontent
        cases hcontent
    · have htarget :=
        Disk.target_eq_file hnul (Disk.reach_object_of_creation hreach) hlong hview
      refine .copyOver htarget ?_ ?_ ((d.frame_setContent number _).write _ bytes fun _ _ => rfl)
      · rcases hspot with hspot | hlink
        · cases hspot
          exact Or.inl (Tree.entryAt_of_view hview)
        · exact Or.inr hlink
      · exact ⟨bytes, Disk.contentOf_write _ number bytes⟩

/-- Where neither an entry nor the content of an object has changed nothing is hidden. -/
theorem KeepsHidden.of_frame {places : Place → Prop} {name : String}
    (h : d.Frame after places fun _ => False) (hname : ¬ places (top ++ [name])) :
    KeepsHidden root top d c after name := by
  have hentry := h.entryAt _ hname
  refine ⟨fun _ => hentry, fun hchanged => absurd hentry hchanged, ?_⟩
  intro number content _ hheld hchanged
  exact absurd (h.contentOf number content hheld not_false) hchanged

theorem Confined.keepsHidden {name : String} (h : Confined root top d c after)
    (hname : name ∉ c.operands) : KeepsHidden root top d c after name := by
  have hother : ∀ operand ∈ c.operands, top ++ [name] ≠ top ++ [operand] := by
    intro operand hmem heq
    have hsame := List.singleton_inj.mp (List.append_cancel_left heq)
    subst hsame
    exact hname hmem
  cases h with
  | unchanged =>
    exact ⟨fun _ => rfl, fun hchanged => absurd rfl hchanged,
      fun _ _ _ hheld hchanged => absurd hheld hchanged⟩
  | @create made _ _ _ hframe => exact .of_frame hframe (hother made (by simp))
  | @delete gone _ _ hframe => exact .of_frame hframe (hother gone (by simp))
  | @rename source target _ _ hframe =>
    -- Only places at or below the two operands are touched, and this one is beside them.
    have hbeside : ∀ operand ∈ [source, target],
        Tree.within (top ++ [operand]) (top ++ [name]) = false := by
      intro operand hmem
      have hapart := Tree.not_within_of_ne (by simp) (hother operand hmem) []
      rwa [List.append_nil] at hapart
    refine .of_frame hframe ?_
    rw [hbeside source (by simp), hbeside target (by simp)]
    decide
  | @copyNew source target directory made _ hview hreach htarget _ hframe =>
    refine ⟨?_, ?_, ?_⟩
    · intro hsome
      apply hframe.entryAt
      intro heq
      rw [heq] at hsome
      exact hsome hview
    · intro hchanged
      have hplace : top ++ [name] = directory ++ [made] := by
        by_contra hne
        exact hchanged (hframe.entryAt _ hne)
      obtain ⟨rfl, hmade⟩ := List.append_inj' hplace rfl
      cases hmade
      rcases htarget with heq | ⟨number, text, hlink⟩
      · exact absurd heq (hother target (by simp))
      · exact ⟨source, target, number, text, rfl, hlink, hreach⟩
    · intro number content _ hheld hchanged
      exact absurd (hframe.contentOf number content hheld not_false) hchanged
  | @copyOver source target written bytes _ hfile htarget _ hframe =>
    have hentry := hframe.entryAt (top ++ [name]) not_false
    refine ⟨fun _ => hentry, fun hchanged => absurd hentry hchanged, ?_⟩
    intro number content _ hheld hchanged
    have hnumber : number = written := by
      by_contra hne
      exact hchanged (hframe.contentOf number content hheld hne)
    subst hnumber
    exact ⟨source, target, bytes, rfl, hfile, htarget⟩

/-- A command whose operands are components changes nothing unless it succeeds. -/
theorem confined_execute (hroot : d.target root = .ok (.directory top))
    (hlen : c.operands.length = c.kind.arity)
    (hnames : ∀ name ∈ c.operands, Path.IsComponent name) :
    Confined root top d c (c.execute root d).disk := by
  rcases c.execute_outcome hlen root d with ⟨fault, -, hsame⟩ | ⟨-, -, hsame⟩ |
    ⟨confirmation, -, hperforms⟩
  · rw [hsame]
    exact .unchanged c
  · rw [hsame]
    exact .unchanged c
  · exact hperforms.confined hroot hnames

end Command

/-- When the root is an existing directory, a line changes nothing unless it is accepted. Then its
operands are plain names, it changes what `Confined` allows, and it keeps what has a name that
begins with a dot. -/
theorem execute_confined {root : String} {top : Place} {d : Disk}
    (hroot : d.target root = .ok (.directory top)) (strict : Bool) (line : String) :
    (∀ r, Command.ofLine strict line = .error r →
      (Line.execute strict root line d).disk = d) ∧
    ∀ c, Command.ofLine strict line = .ok c →
      (∀ name ∈ c.operands,
        Path.IsComponent name ∧ Path.parse name = ⟨false, [name], false⟩) ∧
      Command.Confined root top d c (Line.execute strict root line d).disk ∧
      ∀ name : String, name.toList.head? = some '.' →
        Command.KeepsHidden root top d c (Line.execute strict root line d).disk name := by
  refine ⟨?_, ?_⟩
  · intro r hline
    rw [Line.execute_of_error hline]
  · intro c hline
    have hnames := Command.isComponent_of_ofLine hline
    have hlen := Command.length_operands_of_ofLine hline
    have hconfined := Command.confined_execute hroot hlen hnames
    obtain ⟨-, hdisk⟩ := Line.execute_of_ok hline root d
    rw [hdisk]
    refine ⟨fun name hname => ⟨hnames name hname, (hnames name hname).parse_eq⟩, hconfined, ?_⟩
    intro name hdot
    apply hconfined.keepsHidden
    intro hmem
    exact (hnames name hmem).head_ne_dot hdot

/-- A directory with a file, a hidden file, another name of that, and a link to a hidden name. -/
def Disk.hiding : Disk where
  tree := {
    entries := [(["r"], .directory), (["r", "a"], .object 1), (["r", ".h"], .object 2),
      (["r", "b"], .object 2), (["r", "l"], .object 3)]
    objects := [(1, .file [97]), (2, .file [98]), (3, .link ".new")] }

/-- Copying to the other name changes the hidden file, and copying to the link makes one. -/
theorem execute_confined_hiding :
    Disk.hiding.target "/r" = .ok (.directory ["r"]) ∧
    (Command.Confined "/r" ["r"] Disk.hiding ⟨.copy, ["a", "l"]⟩
        (Line.execute true "/r" "copy file a to l" Disk.hiding).disk ∧
      Command.KeepsHidden "/r" ["r"] Disk.hiding ⟨.copy, ["a", "l"]⟩
        (Line.execute true "/r" "copy file a to l" Disk.hiding).disk ".new" ∧
      (Line.execute true "/r" "copy file a to l" Disk.hiding).disk.tree.view ["r", ".new"] =
        some (.file 4 [97])) ∧
    (Command.KeepsHidden "/r" ["r"] Disk.hiding ⟨.copy, ["a", "b"]⟩
        (Line.execute true "/r" "copy file a to b" Disk.hiding).disk ".h" ∧
      (Line.execute true "/r" "copy file a to b" Disk.hiding).disk.tree.view ["r", ".h"] =
        some (.file 2 [97])) := by
  have hroot : Disk.hiding.target "/r" = .ok (.directory ["r"]) := by
    with_unfolding_all rfl
  have hlink : Command.ofLine true "copy file a to l" = .ok ⟨.copy, ["a", "l"]⟩ := by
    with_unfolding_all rfl
  have hname : Command.ofLine true "copy file a to b" = .ok ⟨.copy, ["a", "b"]⟩ := by
    with_unfolding_all rfl
  obtain ⟨-, hconfined, hhidden⟩ := (execute_confined hroot true "copy file a to l").2 _ hlink
  obtain ⟨-, -, hother⟩ := (execute_confined hroot true "copy file a to b").2 _ hname
  exact ⟨hroot, ⟨hconfined, hhidden ".new" (by decide), by decide +kernel⟩,
    hother ".h" (by decide), by decide +kernel⟩

end FileShell
