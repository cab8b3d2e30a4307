import FileShell.Proofs.Disk.WellFormed

/-!
# What a rename does

When a line that renames an entry of the root succeeds, and what it does then. `Disk.CanRename`
lists the conditions: something has the old name, what has the new name gives way, and neither the
new name nor the paths of the two names are too long. Main statement: `rename_exact`. The paths can
be too long although the root exists and the names are short (`rename_refused_by_length`).
-/

namespace FileShell

namespace Disk

/-- An entry of the directory `top`, which is at the path `root`, can be given another name there.
What is seen at both names are the entries themselves: links are not followed. -/
structure CanRename (d : Disk) (root : String) (top : Place) (source target : String) : Prop where
  seen : d.tree.view (top ++ [source]) ≠ none
  short : Path.tooLong target = false
  gives_way : d.tree.SameObject (top ++ [source]) (top ++ [target]) ∨
    d.tree.GivesWay (top ++ [source]) (top ++ [target])
  source_fits : Path.Fits (Path.join root source)
  target_fits : Path.Fits (Path.join root target)

/-- Nothing has changed if both places hold one and the same thing; otherwise the first one has
taken the place of the second one, and nothing else has changed. -/
structure Renamed (d after : Disk) (old new : Place) : Prop where
  same : d.tree.SameObject old new → after = d
  moved : ¬ d.tree.SameObject old new → after.cwd = d.cwd ∧ d.tree.MovedTo after.tree old new

variable {d after : Disk} {root source target : String} {top : Place}

theorem canRename_iff (ht : d.tree.WellFormed) (hroot : d.target root = .ok (.directory top))
    (hsource : Path.IsComponent source) (htarget : Path.IsComponent target) :
    d.CanRename root top source target ↔
      ∃ after, d.rename (Path.join root source) (Path.join root target) = .ok after := by
  simp only [rename_join_eq_ok_iff hroot hsource htarget, renameAt_sibling_eq_ok_iff]
  constructor
  · rintro ⟨hseen, hshort, hgives, hfits, hfits'⟩
    have hname := ht.short top source (mt ht.view_eq_none_iff.mpr hseen)
    by_cases hsame : d.tree.SameObject (top ++ [source]) (top ++ [target])
    · exact ⟨_, hfits, hfits', hname, hshort, hseen, Or.inl ⟨hsame, rfl⟩⟩
    · exact ⟨_, hfits, hfits', hname, hshort, hseen,
        Or.inr ⟨hsame, hgives.resolve_left hsame, rfl⟩⟩
  · rintro ⟨after, hfits, hfits', -, hshort, hseen, ⟨hsame, -⟩ | ⟨-, hgives, -⟩⟩
    · exact ⟨hseen, hshort, Or.inl hsame, hfits, hfits'⟩
    · exact ⟨hseen, hshort, Or.inr hgives, hfits, hfits'⟩

theorem renamed_of_rename (hclosed : d.tree.Closed) (hroot : d.target root = .ok (.directory top))
    (hsource : Path.IsComponent source) (htarget : Path.IsComponent target)
    (h : d.rename (Path.join root source) (Path.join root target) = .ok after) :
    d.Renamed after (top ++ [source]) (top ++ [target]) := by
  obtain ⟨-, -, hrename⟩ := (rename_join_eq_ok_iff hroot hsource htarget).mp h
  obtain ⟨-, -, -, ⟨hsame, rfl⟩ | ⟨hdiffer, hgives, rfl⟩⟩ := renameAt_sibling_eq_ok_iff.mp hrename
  · exact ⟨fun _ => rfl, fun hdiffer => absurd hsame hdiffer⟩
  · refine ⟨fun hsame => absurd hsame hdiffer, fun _ => ⟨rfl, ?_⟩⟩
    exact Tree.movedTo_move hclosed (by simp) (fun heq => hdiffer (Or.inl heq)) hgives

end Disk

variable {strict : Bool} {root line source target : String} {top : Place} {d : Disk}

/-- When the root is an existing directory, a line that renames one of its entries succeeds exactly
if the entry can be renamed. Then the entry has moved, or both names stay if they are names of one
thing. If it cannot be renamed, nothing changes. -/
theorem rename_exact (ht : d.tree.WellFormed) (hroot : d.target root = .ok (.directory top))
    (hline : Command.ofLine strict line = .ok ⟨.rename, [source, target]⟩) :
    ((∃ said, (Line.execute strict root line d).result = .ok (.done said)) ↔
      d.CanRename root top source target) ∧
    (∀ said, (Line.execute strict root line d).result = .ok (.done said) →
      said = "renamed " ++ source ++ " -> " ++ target ∧
      d.Renamed (Line.execute strict root line d).disk (top ++ [source]) (top ++ [target])) ∧
    (¬ d.CanRename root top source target →
      (∃ diagnostic, (Line.execute strict root line d).result = .error diagnostic) ∧
        (Line.execute strict root line d).disk = d) := by
  have hnames := Command.isComponent_of_ofLine hline
  have hsource : Path.IsComponent source := hnames source (by simp)
  have htarget : Path.IsComponent target := hnames target (by simp)
  have hperforms : ∀ said, (Line.execute strict root line d).result = .ok (.done said) →
      said = "renamed " ++ source ++ " -> " ++ target ∧
      d.rename (Path.join root source) (Path.join root target) =
        .ok (Line.execute strict root line d).disk := by
    intro said hsaid
    cases (Line.done_iff_performs hline).mp ⟨hsaid, rfl⟩ with
    | rename hrename => exact ⟨rfl, hrename⟩
  have hsucceeds : (∃ said, (Line.execute strict root line d).result = .ok (.done said)) ↔
      d.CanRename root top source target := by
    rw [Disk.canRename_iff ht hroot hsource htarget]
    constructor
    · rintro ⟨said, hsaid⟩
      exact ⟨_, (hperforms said hsaid).2⟩
    · rintro ⟨after, hrename⟩
      exact ⟨_, ((Line.done_iff_performs hline).mpr (.rename hrename)).1⟩
  refine ⟨hsucceeds, ?_, ?_⟩
  · intro said hsaid
    obtain ⟨hmessage, hrename⟩ := hperforms said hsaid
    exact ⟨hmessage, Disk.renamed_of_rename ht.closed hroot hsource htarget hrename⟩
  · intro hnot
    rcases Line.done_or_error hline (by simp) root d with hdone | herror
    · exact absurd (hsucceeds.mp hdone) hnot
    · exact herror

/-- A file with two names, another file, a link to it, and two directories, one of them empty. -/
def Disk.attic : Disk where
  tree := {
    entries := [(["a"], .object 1), (["b"], .object 1), (["c"], .object 2), (["l"], .object 3),
      (["d"], .directory), (["d", "x"], .object 4), (["e"], .directory)]
    objects := [(1, .file [97]), (2, .file [99]), (3, .link "c"), (4, .file [])] }

/-- The link takes the place of the file it leads to, and the full directory that of the empty one.
The file with two names keeps both, and does not take the place of a directory. -/
theorem rename_exact_attic :
    (Disk.attic.tree.WellFormed ∧ Disk.attic.target "." = .ok (.directory [])) ∧
    (∃ said, (Line.execute true "." "rename file l to c" Disk.attic).result = .ok (.done said) ∧
      Disk.attic.tree.MovedTo (Line.execute true "." "rename file l to c" Disk.attic).disk.tree
        ["l"] ["c"]) ∧
    (∃ said, (Line.execute true "." "rename file d to e" Disk.attic).result = .ok (.done said) ∧
      Disk.attic.tree.MovedTo (Line.execute true "." "rename file d to e" Disk.attic).disk.tree
        ["d"] ["e"]) ∧
    (∃ said, (Line.execute true "." "rename file a to b" Disk.attic).result = .ok (.done said) ∧
      (Line.execute true "." "rename file a to b" Disk.attic).disk = Disk.attic) ∧
    (Line.execute true "." "rename file a to e" Disk.attic).disk = Disk.attic := by
  have ht : Disk.attic.tree.WellFormed := Tree.wellFormed_of_forall_entries (by decide +kernel)
  have hroot : Disk.attic.target "." = .ok (.directory []) := by with_unfolding_all rfl
  have hline : ∀ line ∈ [("rename file l to c", "l", "c"), ("rename file d to e", "d", "e"),
      ("rename file a to b", "a", "b"), ("rename file a to e", "a", "e")],
      Command.ofLine true line.1 = .ok ⟨.rename, [line.2.1, line.2.2]⟩ := by decide +kernel
  have hlink := rename_exact ht hroot (hline ("rename file l to c", "l", "c") (by simp))
  have hfull := rename_exact ht hroot (hline ("rename file d to e", "d", "e") (by simp))
  have hboth := rename_exact ht hroot (hline ("rename file a to b", "a", "b") (by simp))
  have hkind := rename_exact ht hroot (hline ("rename file a to e", "a", "e") (by simp))
  have hdiffer : ∀ {p q}, Disk.sameEntry Disk.attic.tree p q = false →
      ¬ Disk.attic.tree.SameObject p q := by
    intro p q hfalse hsame
    rw [Disk.sameEntry_iff.mpr hsame] at hfalse
    cases hfalse
  have hfits : ∀ name ∈ ["a", "b", "c", "d", "e", "l"], Path.Fits (Path.join "." name) := by
    unfold Path.Fits
    decide +kernel
  refine ⟨⟨ht, hroot⟩, ?_, ?_, ?_, ?_⟩
  · obtain ⟨said, hsaid⟩ := hlink.1.mpr ⟨by decide +kernel, by decide +kernel,
      Or.inr (.other (by decide +kernel) (by decide +kernel)), hfits _ (by simp), hfits _ (by simp)⟩
    exact ⟨said, hsaid, ((hlink.2.1 said hsaid).2.moved (hdiffer (by decide +kernel))).2⟩
  · obtain ⟨said, hsaid⟩ := hfull.1.mpr ⟨by decide +kernel, by decide +kernel,
      Or.inr (.empty (by decide +kernel) (by decide +kernel)
        (Tree.names_eq_nil_iff.mp (by decide +kernel))), hfits _ (by simp), hfits _ (by simp)⟩
    exact ⟨said, hsaid, ((hfull.2.1 said hsaid).2.moved (hdiffer (by decide +kernel))).2⟩
  · have hsame : Disk.attic.tree.SameObject ["a"] ["b"] := Disk.sameEntry_iff.mp (by decide +kernel)
    obtain ⟨said, hsaid⟩ := hboth.1.mpr ⟨by decide +kernel, by decide +kernel, Or.inl hsame,
      hfits _ (by simp), hfits _ (by simp)⟩
    exact ⟨said, hsaid, (hboth.2.1 said hsaid).2.same hsame⟩
  · refine (hkind.2.2 fun hcan => ?_).2
    rcases hcan.gives_way with hsame | hgives
    · exact hdiffer (by decide +kernel) hsame
    · have hmoved : Disk.attic.tree.view ["a"] = some (.file 1 [97]) := by decide +kernel
      have hreplaced : Disk.attic.tree.view ["e"] = some .directory := by decide +kernel
      exact absurd ((Tree.givesWay_iff hmoved hreplaced).mp hgives).1 (by decide)

/-- The current directory, with slashes after the dot. -/
def Path.padded (count : Nat) : String :=
  String.ofList ('.' :: List.replicate count Path.separator)

theorem Path.byteLength_padded (count : Nat) :
    Text.byteLength (Path.padded count).toList = count + 1 := by
  rw [Path.padded, String.toList_ofList, Text.byteLength_cons]
  have hrest : Text.byteLength (List.replicate count Path.separator) = count := by
    induction count with
    | zero => rfl
    | succ count ih =>
      rw [List.replicate_succ, Text.byteLength_cons, ih]
      show 1 + count = count + 1
      omega
  rw [hrest]
  show 1 + count = count + 1
  omega

theorem Path.filter_pieces_separators (count : Nat) :
    (Path.pieces (List.replicate count Path.separator)).filter (· ≠ []) = [] := by
  induction count with
  | zero => rfl
  | succ count ih =>
    rw [List.replicate_succ, Path.pieces, if_pos rfl]
    simpa using ih

/-- Slashes at the end of a path add no names. -/
theorem Path.names_padded (count : Nat) : (Path.parse (Path.padded count)).names = ["."] := by
  cases count with
  | zero => decide
  | succ count =>
    have hpieces := Path.pieces_append ['.'] (List.replicate count Path.separator)
    rw [Path.parse, Path.padded, String.toList_ofList, List.replicate_succ]
    simp only
    rw [← List.singleton_append, hpieces, List.filter_append, Path.filter_pieces_separators]
    rfl

theorem Disk.target_padded (d : Disk) {count : Nat} (h : count < Path.maxLength) :
    d.target (Path.padded count) = .ok (.directory d.cwd) := by
  have hnul : Path.hasNul (Path.padded count) = false := by
    simp [Path.hasNul, Path.padded, Path.separator]
  have hne : Path.padded count ≠ "" := by
    intro hempty
    have hlen := Path.byteLength_padded count
    rw [hempty] at hlen
    cases hlen
  have habsolute : (Path.parse (Path.padded count)).absolute = false := by
    simp [Path.parse, Path.padded, Path.separator]
  have hreach : d.reach .object (Path.padded count) = .ok (.directory d.cwd) := by
    rw [Disk.reach_eq_ok_iff, Path.names_padded, habsolute]
    refine ⟨hne, ?_, rfl⟩
    rw [Path.Fits, Path.byteLength_padded]
    exact h
  rw [Disk.target, hnul, hreach]
  rfl

/-- A directory with one file. -/
def Disk.lone : Disk where
  tree := { entries := [(["old.txt"], .object 1)], objects := [(1, .file [120])] }

/-- A root that exists may be so long that the paths of names in it cannot be renamed, although the
names themselves are short and one of them is free. -/
theorem rename_refused_by_length :
    Disk.lone.tree.WellFormed ∧ Disk.lone.target (Path.padded 4090) = .ok (.directory []) ∧
    Command.ofLine false "rename file old.txt to new.txt" =
      .ok ⟨.rename, ["old.txt", "new.txt"]⟩ ∧
    Disk.lone.tree.view ["old.txt"] ≠ none ∧ Path.tooLong "new.txt" = false ∧
    Disk.lone.tree.GivesWay ["old.txt"] ["new.txt"] ∧
    ∀ said, (Line.execute false (Path.padded 4090) "rename file old.txt to new.txt"
      Disk.lone).result ≠ .ok (.done said) := by
  have hroot : Disk.lone.target (Path.padded 4090) = .ok (.directory []) :=
    Disk.lone.target_padded (by decide)
  have hline : Command.ofLine false "rename file old.txt to new.txt" =
      .ok ⟨.rename, ["old.txt", "new.txt"]⟩ := by decide +kernel
  refine ⟨Tree.wellFormed_of_forall_entries (by decide +kernel), hroot, hline,
    by decide +kernel, by decide +kernel, .absent (by decide +kernel), ?_⟩
  intro said hsaid
  have hnames := Command.isComponent_of_ofLine hline
  have hold : Path.IsComponent "old.txt" := hnames "old.txt" (by simp)
  cases (Line.done_iff_performs hline).mp ⟨hsaid, rfl⟩ with
  | rename hrename =>
    obtain ⟨hfits, -, -⟩ :=
      (Disk.rename_join_eq_ok_iff hroot hold (hnames "new.txt" (by simp))).mp hrename
    have hlen := Path.byteLength_le_join (Path.padded 4090) hold
    have hname : Text.byteLength "old.txt".toList = 7 := by decide +kernel
    rw [Path.byteLength_padded, hname] at hlen
    have hmax := hlen.trans hfits
    rw [Path.maxLength] at hmax
    omega

end FileShell
