import FileShell.Proofs.Command.Execution
import FileShell.Proofs.Disk.Contents

/-!
# Names in a directory

Where the path of a name in a directory leads. Joining adds the name to the names of the directory
(`parse_join`), and a walk along both comes by the directory, whatever links it has followed to
get there (`walk_append`). So the path leads to the entry of that name in the directory, and
further only if this entry is a link that is followed.
-/

namespace FileShell

namespace Path

theorem pieces_ne_nil (cs : List Char) : pieces cs ≠ [] := by
  cases cs with
  | nil => exact List.cons_ne_nil _ _
  | cons c cs =>
    rw [pieces]
    split
    · exact List.cons_ne_nil _ _
    · split
      · exact List.cons_ne_nil _ _
      · exact List.cons_ne_nil _ _

theorem pieces_append (xs ys : List Char) :
    pieces (xs ++ separator :: ys) = pieces xs ++ pieces ys := by
  induction xs with
  | nil =>
    show pieces (separator :: ys) = [] :: pieces ys
    rw [pieces, if_pos rfl]
  | cons c xs ih =>
    rw [List.cons_append, pieces, pieces, ih]
    by_cases hc : c = separator
    · rw [if_pos hc, if_pos hc]
      rfl
    · obtain ⟨piece, rest, hpieces⟩ := List.exists_cons_of_ne_nil (pieces_ne_nil xs)
      rw [if_neg hc, if_neg hc, hpieces]
      rfl

theorem pieces_of_notMem {cs : List Char} (h : separator ∉ cs) : pieces cs = [cs] := by
  induction cs with
  | nil => rfl
  | cons c cs ih =>
    rw [List.mem_cons, not_or] at h
    rw [pieces, if_neg (Ne.symm h.1), ih h.2]

variable {root name : String}

theorem IsComponent.toList_ne_nil (h : IsComponent name) : name.toList ≠ [] := by
  intro hnil
  exact h.ne_empty (String.toList_injective hnil)

theorem IsComponent.head?_ne (h : IsComponent name) : name.toList.head? ≠ some separator :=
  fun hhead => h.separator_notMem (List.mem_of_head? hhead)

theorem IsComponent.getLast?_ne (h : IsComponent name) : name.toList.getLast? ≠ some separator :=
  fun hlast => h.separator_notMem (List.mem_of_getLast? hlast)

/-- A component is a path of one name. -/
theorem IsComponent.parse_eq (h : IsComponent name) : parse name = ⟨false, [name], false⟩ := by
  rw [parse, pieces_of_notMem h.separator_notMem]
  simp [h.head?_ne, h.getLast?_ne, h.toList_ne_nil]

/-- Joined to a directory, a component is behind a separator, and all before that are the names of
the directory. -/
theorem join_eq (hroot : root ≠ "") (h : IsComponent name) : ∃ front,
    (join root name).toList = front ++ separator :: name.toList ∧
    (front ++ separator :: name.toList).head? = root.toList.head? ∧
    (pieces front).filter (· ≠ []) = (pieces root.toList).filter (· ≠ []) := by
  obtain ⟨c, rest, hcons⟩ := List.exists_cons_of_ne_nil fun hnil : root.toList = [] =>
    hroot (String.toList_injective hnil)
  by_cases hlast : root.toList.getLast? = some separator
  · obtain ⟨front, hfront⟩ := List.getLast?_eq_some_iff.mp hlast
    refine ⟨front, ?_, ?_, ?_⟩
    · rw [join, if_neg h.head?_ne, if_pos (Or.inr hlast), String.toList_append, hfront]
      simp
    · have hassoc : front ++ separator :: name.toList = root.toList ++ name.toList := by
        rw [hfront]
        simp
      rw [hassoc, hcons]
      rfl
    · have hpieces := pieces_append front []
      rw [hfront, hpieces, pieces, List.filter_append]
      simp
  · refine ⟨root.toList, ?_, ?_, rfl⟩
    · rw [join, if_neg h.head?_ne, if_neg (not_or.mpr ⟨hroot, hlast⟩)]
      simp [separator]
    · rw [hcons]
      rfl

theorem parse_join (hroot : root ≠ "") (h : IsComponent name) :
    parse (join root name) = ⟨(parse root).absolute, (parse root).names ++ [name], false⟩ := by
  obtain ⟨front, hjoin, hhead, hnames⟩ := join_eq hroot h
  have hlast : (front ++ separator :: name.toList).getLast? = name.toList.getLast? := by
    rw [List.getLast?_append_of_ne_nil _ (List.cons_ne_nil _ _),
      List.getLast?_cons_of_ne_nil h.toList_ne_nil]
  rw [parse, hjoin, hhead, hlast, pieces_append, List.filter_append, hnames,
    pieces_of_notMem h.separator_notMem]
  simp [parse, h.getLast?_ne, h.toList_ne_nil]

/-- A path that is not too long for the system. -/
def Fits (path : String) : Prop :=
  Text.byteLength path.toList ≤ maxLength

theorem read_eq_ok_iff {text : String} {p : Path} :
    read text = .ok p ↔ text ≠ "" ∧ Fits text ∧ p = parse text := by
  unfold read Fits
  split
  · next hempty => simp [hempty]
  · next hne =>
    split
    · next hlong => simp [Nat.not_le.mpr hlong]
    · next hlong => simp [hne, Nat.not_lt.mp hlong, eq_comm]

theorem join_ne_empty (hroot : root ≠ "") (h : IsComponent name) : join root name ≠ "" := by
  intro hempty
  obtain ⟨front, hjoin, -, -⟩ := join_eq hroot h
  rw [hempty] at hjoin
  exact List.append_ne_nil_of_right_ne_nil front (List.cons_ne_nil _ _) hjoin.symm

theorem byteLength_le_join (root : String) (h : IsComponent name) :
    Text.byteLength root.toList + Text.byteLength name.toList ≤
      Text.byteLength (join root name).toList := by
  rw [join, if_neg h.head?_ne]
  split
  · simp
  · simp

theorem hasNul_join (hroot : hasNul root = false) (h : IsComponent name) :
    hasNul (join root name) = false := by
  have hname := h.hasNul_eq
  unfold hasNul at hroot hname ⊢
  unfold join
  split
  · exact hname
  · split
    · simp [hroot, hname]
    · simp [hroot, hname]

end Path

namespace Tree

variable {t : Tree} {place top : Place} {names more : List String} {name : String}

/-- A spot is where a directory is. -/
def IsAt (t : Tree) (top : Place) : Spot → Prop
  | .directory place => place = top
  | .named directory name _ => directory ++ [name] = top ∧ t.view top = some .directory

/-- Names that follow are looked up where the names before them have led to. -/
theorem stretch_append (t : Tree) (follow : Bool) (hmore : more ≠ []) (names : List String)
    (place : Place) :
    (∀ top, t.stretch true place names = .directory top →
      t.stretch follow place (names ++ more) = t.stretch follow top more) ∧
    (∀ directory name, t.stretch true place names = .named directory name →
      t.view (directory ++ [name]) = some .directory →
      t.stretch follow place (names ++ more) = t.stretch follow (directory ++ [name]) more) ∧
    (∀ directory target rest, t.stretch true place names = .link directory target rest →
      t.stretch follow place (names ++ more) = .link directory target (rest ++ more)) := by
  induction names generalizing place with
  | nil =>
    refine ⟨?_, ?_, ?_⟩
    · rintro top ⟨⟩
      rfl
    · rintro directory name ⟨⟩
    · rintro directory target rest ⟨⟩
  | cons name names ih =>
    -- With more names to come this one is not the last, so it has to be a directory or a link.
    have hrest : names ++ more ≠ [] := List.append_ne_nil_of_right_ne_nil _ hmore
    by_cases hhere : name = "."
    · simp only [List.cons_append, stretch, if_pos hhere]
      exact ih place
    · by_cases hparent : name = ".."
      · simp only [List.cons_append, stretch, if_neg hhere, if_pos hparent]
        exact ih place.dropLast
      · simp only [List.cons_append, stretch, if_neg hhere, if_neg hparent, hrest, false_and,
          if_false, reduceCtorEq, and_false]
        by_cases hlong : Path.tooLong name = true
        · simp [hlong]
        · simp only [hlong]
          cases hview : t.view (place ++ [name]) with
          | none =>
            by_cases hnames : names = []
            · simp [hnames, hview]
            · simp [hnames]
          | some view =>
            cases view with
            | link number target =>
              refine ⟨?_, ?_, ?_⟩
              · rintro top ⟨⟩
              · rintro directory name ⟨⟩
              · rintro directory target rest ⟨⟩
                rfl
            | directory =>
              by_cases hnames : names = []
              · subst hnames
                refine ⟨?_, ?_, ?_⟩
                · rintro top ⟨⟩
                · rintro directory name ⟨⟩ -
                  rfl
                · rintro directory target rest ⟨⟩
              · simp only [if_neg hnames]
                exact ih (place ++ [name])
            | file number bytes =>
              by_cases hnames : names = []
              · simp [hnames, hview]
              · simp [hnames]

theorem walk_congr {aim : Aim} {slashed : Bool} {other : Place} {others : List String}
    (links : Nat) (h : t.stretch (aim.follows slashed) place names =
      t.stretch (aim.follows slashed) other others) :
    t.walk aim links place names slashed = t.walk aim links other others slashed := by
  cases links with
  | zero => rw [walk, walk, h]
  | succ links => rw [walk, walk, h]

/-- A walk ends where its names have led without a link, or goes on behind a link. -/
theorem walk_eq_ok {aim : Aim} {links : Nat} {slashed : Bool} {spot : Spot}
    (h : t.walk aim links place names slashed = .ok spot) :
    (∃ top, t.stretch (aim.follows slashed) place names = .directory top ∧
      spot = .directory top) ∨
    (∃ directory name, t.stretch (aim.follows slashed) place names = .named directory name ∧
      spot = .named directory name slashed) ∨
    ∃ directory target rest left,
      t.stretch (aim.follows slashed) place names = .link directory target rest ∧
      links = left + 1 ∧
      t.walk aim left (if (Path.parse target).absolute then [] else directory)
        ((Path.parse target).names ++ rest)
        (slashed || (decide (rest = []) && (Path.parse target).slashed)) = .ok spot := by
  rw [walk] at h
  split at h
  · next top hstretch =>
    cases h
    exact Or.inl ⟨top, hstretch, rfl⟩
  · next directory name hstretch =>
    cases h
    exact Or.inr (Or.inl ⟨directory, name, hstretch, rfl⟩)
  · cases h
  · next directory target rest hstretch =>
    split at h
    · cases h
    · next left => exact Or.inr (Or.inr ⟨directory, target, rest, left, hstretch, rfl, h⟩)

/-- A walk goes on from the directory to which its first names lead. -/
theorem walk_append {links : Nat} {slashed : Bool} {spot : Spot} (hmore : more ≠ [])
    (h : t.walk .object links place names slashed = .ok spot) (htop : t.IsAt top spot)
    (aim : Aim) (last : Bool) :
    ∃ left, t.walk aim links place (names ++ more) last = t.walk aim left top more last := by
  induction links using Nat.strongRecOn generalizing place names slashed with
  | ind links ih =>
    obtain ⟨hdirectory, hnamed, hlink⟩ := t.stretch_append (aim.follows last) hmore names place
    rcases walk_eq_ok h with ⟨other, hstretch, rfl⟩ | ⟨directory, name, hstretch, rfl⟩ |
      ⟨directory, target, rest, left, hstretch, rfl, hwalk⟩
    · have hother : other = top := htop
      subst hother
      exact ⟨links, walk_congr links (hdirectory other hstretch)⟩
    · obtain ⟨rfl, hview⟩ := htop
      exact ⟨links, walk_congr links (hnamed directory name hstretch hview)⟩
    · -- Behind the link come its names, then those that were left, and then the ones that follow.
      have hrest : rest ++ more ≠ [] := List.append_ne_nil_of_right_ne_nil _ hmore
      obtain ⟨after, hafter⟩ := ih left (Nat.lt_succ_self left) hwalk
      refine ⟨after, ?_⟩
      rw [walk, hlink directory target rest hstretch]
      simp only [hrest, decide_false, Bool.false_and, Bool.or_false]
      rw [← List.append_assoc, hafter]

theorem walk_slashed {aim : Aim} {links : Nat} {directory : Place} {slashed : Bool}
    (h : t.walk aim links place names true = .ok (.named directory name slashed)) :
    slashed = true := by
  induction links using Nat.strongRecOn generalizing place names with
  | ind links ih =>
    rcases walk_eq_ok h with ⟨top, -, hspot⟩ | ⟨other, found, -, hspot⟩ |
      ⟨other, target, rest, left, -, rfl, hwalk⟩
    · cases hspot
    · cases hspot
      rfl
    · exact ih left (Nat.lt_succ_self left) hwalk

/-- Without a slash at the end it matters only whether links are followed there. -/
theorem walk_of_follows {aim other : Aim} {links : Nat} {directory : Place} {slashed : Bool}
    (hfollows : aim.follows false = other.follows false)
    (h : t.walk aim links place names slashed = .ok (.named directory name false)) :
    t.walk other links place names slashed = .ok (.named directory name false) := by
  induction links using Nat.strongRecOn generalizing place names slashed with
  | ind links ih =>
    -- A slash would be seen at the end, so there is none on the way.
    have hslashed : slashed = false := by
      cases slashed with
      | false => rfl
      | true => cases walk_slashed h
    subst hslashed
    rcases walk_eq_ok h with ⟨top, -, hspot⟩ | ⟨found, last, hstretch, hspot⟩ |
      ⟨found, target, rest, left, hstretch, rfl, hwalk⟩
    · cases hspot
    · cases hspot
      rw [hfollows] at hstretch
      rw [walk, hstretch]
    · rw [hfollows] at hstretch
      rw [walk, hstretch]
      exact ih left (Nat.lt_succ_self left) hwalk

theorem stretch_component (follow : Bool) (place : Place) (h : Path.IsComponent name) :
    t.stretch follow place [name] =
      if follow = false then .named place name
      else if Path.tooLong name then .fault .nameTooLong
      else
        match t.view (place ++ [name]) with
        | some (.link _ target) => .link place target []
        | _ => .named place name := by
  simp only [stretch, if_neg h.ne_here, if_neg h.ne_parent, true_and, if_true]
  split
  · rfl
  · split
    · rfl
    · split
      · next hview => rw [hview]
      · next hview => rw [hview]
      · next hview => rw [hview]
      · next hview => rw [hview]

end Tree

namespace Disk

variable {d : Disk} {root name : String} {top : Place}

theorem reach_eq_ok_iff {aim : Aim} {path : String} {spot : Spot} :
    d.reach aim path = .ok spot ↔ path ≠ "" ∧ Path.Fits path ∧
      d.tree.walk aim Tree.maxLinks (if (Path.parse path).absolute then [] else d.cwd)
        (Path.parse path).names (Path.parse path).slashed = .ok spot := by
  unfold reach
  cases hread : Path.read path with
  | error fault =>
    constructor
    · intro h
      cases h
    · rintro ⟨hne, hfits, -⟩
      rw [Path.read_eq_ok_iff.mpr ⟨hne, hfits, rfl⟩] at hread
      cases hread
  | ok p =>
    obtain ⟨hne, hfits, rfl⟩ := Path.read_eq_ok_iff.mp hread
    exact ⟨fun h => ⟨hne, hfits, h⟩, fun h => h.2.2⟩

theorem isAt_of_targetAt {spot : Spot} (h : d.targetAt spot = .ok (.directory top)) :
    d.tree.IsAt top spot := by
  unfold targetAt at h
  split at h
  · cases h
    rfl
  · split at h
    · cases h
    · split at h
      · cases h
      · next hview =>
        cases h
        exact ⟨rfl, hview⟩
      · split at h
        · cases h
        · cases h
      · cases h

/-- The path of a name in a directory leads to where the name leads from there, if it fits. -/
theorem reach_join_iff (hroot : d.target root = .ok (.directory top))
    (hname : Path.IsComponent name) (aim : Aim) : ∃ left, ∀ spot,
    d.reach aim (Path.join root name) = .ok spot ↔
      Path.Fits (Path.join root name) ∧ d.tree.walk aim left top [name] false = .ok spot := by
  obtain ⟨-, before, hreach, hbefore⟩ := target_eq_ok hroot
  obtain ⟨hne, -, hfirst⟩ := reach_eq_ok_iff.mp hreach
  obtain ⟨left, hleft⟩ := Tree.walk_append (List.cons_ne_nil name []) hfirst
    (isAt_of_targetAt hbefore) aim false
  refine ⟨left, fun spot => ?_⟩
  rw [reach_eq_ok_iff, Path.parse_join hne hname, ← hleft]
  exact ⟨fun h => h.2, fun h => ⟨Path.join_ne_empty hne hname, h⟩⟩

/-- An entry is reached by its name, if the path fits. -/
theorem reach_entry_join_iff {spot : Spot} (hroot : d.target root = .ok (.directory top))
    (hname : Path.IsComponent name) : d.reach .entry (Path.join root name) = .ok spot ↔
      Path.Fits (Path.join root name) ∧ spot = .named top name false := by
  obtain ⟨left, hreach⟩ := reach_join_iff hroot hname .entry
  have hstretch : d.tree.stretch (Aim.entry.follows false) top [name] = .named top name := by
    rw [Tree.stretch_component _ _ hname]
    rfl
  rw [hreach, Tree.walk, hstretch, Except.ok.injEq, eq_comm]

/-- A file is created under its name unless that is the name of a link. -/
theorem reach_creation_join {spot : Spot} (hroot : d.target root = .ok (.directory top))
    (hname : Path.IsComponent name) (h : d.reach .creation (Path.join root name) = .ok spot) :
    spot = .named top name false ∨
      ∃ number text, d.tree.view (top ++ [name]) = some (.link number text) := by
  obtain ⟨left, hreach⟩ := reach_join_iff hroot hname .creation
  obtain ⟨-, hwalk⟩ := (hreach spot).mp h
  have hstretch := @Tree.stretch_component d.tree _ (Aim.creation.follows false) top hname
  rw [if_neg (by decide)] at hstretch
  split at hstretch
  · rw [Tree.walk, hstretch] at hwalk
    cases hwalk
  · split at hstretch
    · next number text hview => exact Or.inr ⟨number, text, hview⟩
    · rw [Tree.walk, hstretch] at hwalk
      cases hwalk
      exact Or.inl rfl

theorem target_eq_file {path : String} {directory : Place} {number : Nat} {bytes : Bytes}
    (hnul : Path.hasNul path = false)
    (hreach : d.reach .object path = .ok (.named directory name false))
    (hlong : Path.tooLong name = false)
    (hview : d.tree.view (directory ++ [name]) = some (.file number bytes)) :
    d.target path = .ok (.file number bytes) := by
  have hspot : d.targetAt (.named directory name false) = .ok (.file number bytes) := by
    rw [targetAt, if_neg (by rw [hlong]; decide), hview]
    rfl
  rw [target, if_neg (by rw [hnul]; decide), hreach]
  simp only [hspot]

theorem reach_of_follows {aim other : Aim} {path : String} {directory : Place}
    (hfollows : aim.follows false = other.follows false)
    (h : d.reach aim path = .ok (.named directory name false)) :
    d.reach other path = .ok (.named directory name false) := by
  unfold reach at h ⊢
  split
  · next fault hread =>
    rw [hread] at h
    cases h
  · next p hread =>
    rw [hread] at h
    exact Tree.walk_of_follows hfollows h

/-- Where a file can be created, there the path leads. -/
theorem reach_object_of_creation {path : String} {directory : Place}
    (h : d.reach .creation path = .ok (.named directory name false)) :
    d.reach .object path = .ok (.named directory name false) := by
  have hfollows : Aim.creation.follows false = Aim.object.follows false := rfl
  exact reach_of_follows hfollows h

end Disk

end FileShell
