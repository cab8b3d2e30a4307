import FileShell.Proofs.Disk.Copying
import FileShell.Proofs.Disk.Renaming

/-!
# Operations on names in a directory

When a root is a path of directories, with no link on the way and none of the names a link, the
operations on these names are decided by what is seen at the names and right below them. `Settled`
says so of an operation, and that its effect concerns those names only. It holds for creating,
removing, moving and copying (`settled_create`, `settled_remove`, `settled_rename`,
`settled_copy`).
-/

namespace FileShell

namespace Tree

/-- Names lead from one place to another over directories, without a link and without a way up. -/
inductive LeadsPlainly (t : Tree) : Place → List String → Place → Prop
  | here (place : Place) : LeadsPlainly t place [] place
  | stay {place top : Place} {rest : List String} : LeadsPlainly t place rest top →
      LeadsPlainly t place ("." :: rest) top
  | enter {place top : Place} {name : String} {rest : List String} : name ≠ "." → name ≠ ".." →
      t.view (place ++ [name]) = some .directory → LeadsPlainly t (place ++ [name]) rest top →
      LeadsPlainly t place (name :: rest) top

variable {t u : Tree} {place top : Place} {names more : List String}

theorem LeadsPlainly.exists_append (h : t.LeadsPlainly place names top) :
    ∃ rest, top = place ++ rest := by
  induction h with
  | here place => exact ⟨[], (List.append_nil place).symm⟩
  | stay _ ih => exact ih
  | @enter place top name rest _ _ _ _ ih =>
    obtain ⟨below, rfl⟩ := ih
    exact ⟨name :: below, by simp⟩

/-- Only the directories on the way matter. -/
theorem LeadsPlainly.congr (h : t.LeadsPlainly place names top)
    (hview : ∀ above rest, top = above ++ rest → t.view above = some .directory →
      u.view above = some .directory) : u.LeadsPlainly place names top := by
  induction h with
  | here place => exact .here place
  | stay _ ih => exact .stay (ih hview)
  | enter hhere hparent hdirectory hrest ih =>
    obtain ⟨below, hbelow⟩ := hrest.exists_append
    exact .enter hhere hparent (hview _ below hbelow hdirectory) (ih hview)

/-- More names are looked up at the end of a plain way, unless a name on it is too long. -/
theorem LeadsPlainly.stretch_append (h : t.LeadsPlainly place names top) (hmore : more ≠ [])
    (follow : Bool) : t.stretch follow place (names ++ more) =
      if names.any Path.tooLong then .fault .nameTooLong else t.stretch follow top more := by
  induction h with
  | here place => rfl
  | stay _ ih =>
    have hshort : Path.tooLong "." = false := by decide
    rw [List.cons_append, stretch, if_pos rfl, ih, List.any_cons, hshort, Bool.false_or]
  | @enter place top name rest hhere hparent hdirectory _ ih =>
    have hrest : rest ++ more ≠ [] := List.append_ne_nil_of_right_ne_nil _ hmore
    rw [List.cons_append, stretch, if_neg hhere, if_neg hparent, List.any_cons,
      if_neg fun hlast => hrest hlast.1]
    by_cases hlong : Path.tooLong name = true
    · simp only [hlong, if_true, Bool.true_or]
    · rw [Bool.not_eq_true] at hlong
      simp only [hlong, hdirectory, hrest, ih, Bool.false_or, Bool.false_eq_true, if_false]

theorem SameAt.names_eq_nil_iff (h : t.SameAt u place) :
    u.names place = [] ↔ t.names place = [] := by
  rw [Tree.names_eq_nil_iff, Tree.names_eq_nil_iff]
  simp only [h.entryAt_eq]

theorem SameAt.refl (t : Tree) (place : Place) : t.SameAt t place :=
  ⟨rfl, fun _ => rfl⟩

theorem setContent_setContent (t : Tree) (number : Nat) (first second : Content) :
    (t.setContent number first).setContent number second = t.setContent number second := by
  simp [setContent, List.filter_filter]

/-- A new file that is written is a new file with the bytes. -/
theorem setContent_addObject (t : Tree) (place : Place) (first second : Content) :
    (t.addObject place first).setContent t.freshNumber second = t.addObject place second := by
  rw [addObject, addObject, ← t.setContent_setContent t.freshNumber first second]
  rfl

theorem contentOf_addObject_of_some {content : Content} {number : Nat}
    (h : t.contentOf number = some content) (place : Place) (new : Content) :
    (t.addObject place new).contentOf number = some content := by
  have hne : number ≠ t.freshNumber := by
    rintro rfl
    rw [t.contentOf_freshNumber] at h
    cases h
  rw [contentOf_addObject_of_ne hne, h]

end Tree

/-- Where the path of a name in a directory leads if there are no links: that is for the texts to
decide, not for the disk. -/
def Path.arrival (aim : Aim) (root : String) (top : Place) (name : String) :
    Except SystemFault Spot :=
  match read (join root name) with
  | .error fault => .error fault
  | .ok _ =>
    if (parse root).names.any tooLong || (aim.follows false && tooLong name) then
      .error .nameTooLong
    else .ok (.named top name false)

theorem Path.eq_named_of_arrival {aim : Aim} {root name : String} {top : Place} {spot : Spot}
    (h : arrival aim root top name = .ok spot) : spot = .named top name false := by
  unfold arrival at h
  split at h
  · cases h
  · split at h
    · cases h
    · cases h
      rfl

/-- A name too long to follow may still be that of an entry that is not followed. -/
theorem Path.arrival_entry_of_eq_ok {aim : Aim} {root name : String} {top : Place} {spot : Spot}
    (h : arrival aim root top name = .ok spot) : arrival .entry root top name = .ok spot := by
  unfold arrival at h ⊢
  split at h
  · cases h
  · split at h
    · cases h
    · next hshort =>
      rw [Bool.not_eq_true, Bool.or_eq_false_iff] at hshort
      rw [hshort.1]
      exact h

namespace Disk

/-- A root is a path over directories, without a link and without a way up, to the place `top`. -/
structure PlainRoot (d : Disk) (root : String) (top : Place) : Prop where
  ne_empty : root ≠ ""
  leads : d.tree.LeadsPlainly (if (Path.parse root).absolute then [] else d.cwd)
    (Path.parse root).names top

/-- Names in a plain root, none of which is that of a link. -/
structure PlainNames (d : Disk) (root : String) (top : Place) (names : List String) : Prop where
  plainRoot : d.PlainRoot root top
  isComponent : ∀ name ∈ names, Path.IsComponent name
  not_link : ∀ name ∈ names, ∀ number text,
    d.tree.view (top ++ [name]) ≠ some (.link number text)

/-- Another disk looks like this one at some names in a root. -/
structure LooksLike (d other : Disk) (root : String) (top : Place) (names : List String) :
    Prop where
  plainRoot : other.PlainRoot root top
  sameAt : ∀ name ∈ names, d.tree.SameAt other.tree (top ++ [name])

/-- What a run on a disk comes to is settled by what is seen at some names in a root: the result is
the same on all disks that look like this one there, and so is the effect, which concerns those
names only. -/
def Settled {ρ : Type} (d : Disk) (root : String) (top : Place) (names : List String)
    (run : Disk → ρ × Disk) : Prop :=
  ∃ (result : ρ) (e : Tree.Effect), e.Concerns d.tree top names ∧
    ∀ other, d.LooksLike other root top names →
      run other = (result, other.withTree (e.on other.tree))

variable {d other : Disk} {root name source target : String} {top : Place} {names : List String}

/-- The current directory is always plain. -/
theorem plainRoot_here (d : Disk) : d.PlainRoot "." d.cwd where
  ne_empty := by decide
  leads := by
    have hparse : Path.parse "." = ⟨false, ["."], false⟩ := by decide
    rw [hparse]
    exact .stay (.here d.cwd)

theorem PlainRoot.reach_join (h : d.PlainRoot root top) (hname : Path.IsComponent name) {aim : Aim}
    (hlink : aim.follows false = true → ∀ number text,
      d.tree.view (top ++ [name]) ≠ some (.link number text)) :
    d.reach aim (Path.join root name) = Path.arrival aim root top name := by
  have hstretch := h.leads.stretch_append (List.cons_ne_nil name []) (aim.follows false)
  rw [Tree.stretch_component _ _ hname] at hstretch
  unfold reach Path.arrival
  cases hread : Path.read (Path.join root name) with
  | error fault => rfl
  | ok p =>
    obtain ⟨-, -, hp⟩ := Path.read_eq_ok_iff.mp hread
    rw [Path.parse_join h.ne_empty hname] at hp
    subst hp
    show d.tree.walk aim Tree.maxLinks _ ((Path.parse root).names ++ [name]) false = _
    rw [Tree.walk, hstretch]
    by_cases hroot : (Path.parse root).names.any Path.tooLong = true
    · simp only [hroot, if_true, Bool.true_or]
    · rw [Bool.not_eq_true] at hroot
      simp only [hroot, Bool.false_eq_true, if_false, Bool.false_or]
      cases hfollows : aim.follows false with
      | false => rfl
      | true =>
        -- What is seen at the name is no link, so the walk ends there.
        have hlink := hlink hfollows
        simp only [Bool.true_eq_false, if_false, Bool.true_and]
        by_cases hlong : Path.tooLong name = true
        · simp only [hlong, if_true]
        · simp only [hlong, Bool.false_eq_true, if_false]

theorem PlainNames.looksLike_self (h : d.PlainNames root top names) :
    d.LooksLike d root top names :=
  ⟨h.plainRoot, fun name _ => .refl d.tree (top ++ [name])⟩

namespace LooksLike

theorem reach_join (h : d.LooksLike other root top names) (hd : d.PlainNames root top names)
    (hname : name ∈ names) (aim : Aim) :
    other.reach aim (Path.join root name) = Path.arrival aim root top name := by
  refine h.plainRoot.reach_join (hd.isComponent name hname) fun _ => ?_
  rw [(h.sameAt name hname).view_eq]
  exact hd.not_link name hname

theorem target_join (h : d.LooksLike other root top names) (hd : d.PlainNames root top names)
    (hname : name ∈ names) :
    other.target (Path.join root name) = d.target (Path.join root name) := by
  have hd' := hd.looksLike_self
  rw [target, target, h.reach_join hd hname, hd'.reach_join hd hname]
  cases harrival : Path.arrival .object root top name with
  | error fault => rfl
  | ok spot =>
    have hspot := Path.eq_named_of_arrival harrival
    subst hspot
    simp only [targetAt, (h.sameAt name hname).view_eq]

theorem sameEntry_eq (h : d.LooksLike other root top names) (hsource : source ∈ names)
    (htarget : target ∈ names) :
    sameEntry other.tree (top ++ [source]) (top ++ [target]) =
      sameEntry d.tree (top ++ [source]) (top ++ [target]) := by
  have hfirst := (h.sameAt source hsource).entryAt_eq []
  have hsecond := (h.sameAt target htarget).entryAt_eq []
  rw [List.append_nil] at hfirst hsecond
  rw [sameEntry, sameEntry, hfirst, hsecond]

end LooksLike

/-- A root stays plain whatever happens to names in it. -/
theorem PlainRoot.on {e : Tree.Effect} (h : d.PlainRoot root top)
    (he : e.Concerns d.tree top names) : (d.withTree (e.on d.tree)).PlainRoot root top := by
  refine ⟨h.ne_empty, h.leads.congr fun above rest htop hview => ?_⟩
  have habove : ¬ Tree.Under top names above := by
    rintro ⟨name, -, below, rfl⟩
    have hlen := congrArg List.length htop
    simp at hlen
  rw [withTree, he.view_on, he.origin_eq habove, Tree.Origin.viewIn, hview, Option.map_some,
    e.revise_directory]

/-- An effect on names that are apart from these makes no difference to them. -/
theorem PlainNames.looksLike_on {others : List String} {e : Tree.Effect}
    (hd : d.PlainNames root top names) (he : e.Concerns d.tree top others)
    (hapart : d.tree.Apart top others names) :
    d.LooksLike (d.withTree (e.on d.tree)) root top names where
  plainRoot := hd.plainRoot.on he
  sameAt := fun _ hname => he.sameAt_on hapart hname

/-- What is settled without an effect. -/
theorem Settled.of_eq {ρ : Type} {run : Disk → ρ × Disk} (result : ρ)
    (h : ∀ other, d.LooksLike other root top names → run other = (result, other)) :
    d.Settled root top names run :=
  ⟨result, .nothing, .nothing, h⟩

/-- What is settled stays so when the result is put in other words. -/
theorem Settled.map {ρ σ : Type} {run : Disk → ρ × Disk} (h : d.Settled root top names run)
    (f : ρ → σ) : d.Settled root top names fun other => (f (run other).1, (run other).2) := by
  obtain ⟨result, e, hconcerns, hrun⟩ := h
  refine ⟨f result, e, hconcerns, fun other hother => ?_⟩
  simp only [hrun other hother]

/-- An operation that is settled: it fails with one fault, or has one effect. -/
def Decided {ε : Type} (d : Disk) (root : String) (top : Place) (names : List String)
    (op : Disk → Except ε Disk) : Prop :=
  (∃ fault, ∀ other, d.LooksLike other root top names → op other = .error fault) ∨
  ∃ e : Tree.Effect, e.Concerns d.tree top names ∧
    ∀ other, d.LooksLike other root top names → op other = .ok (other.withTree (e.on other.tree))

theorem Decided.settled {op : Disk → Except Fault Disk} (h : d.Decided root top names op)
    (path : String) :
    d.Settled root top names fun other => FileAction.settle other path (op other) := by
  rcases h with ⟨fault, hfault⟩ | ⟨e, hconcerns, hok⟩
  · refine .of_eq (.error (.atPath path fault)) fun other hother => ?_
    simp only [hfault other hother, FileAction.settle]
  · refine ⟨.ok (), e, hconcerns, fun other hother => ?_⟩
    simp only [hok other hother, FileAction.settle]

/-- An operation on a path is decided by what it does at the name where the path leads. -/
theorem decided_of_named (hd : d.PlainNames root top names) (hname : name ∈ names)
    {op : Disk → Spot → Except SystemFault Disk}
    (h : d.Decided root top names fun other => op other (.named top name false)) :
    d.Decided root top names fun other =>
      if Path.hasNul (Path.join root name) then .error Fault.nulInPath
      else
        match other.reach .entry (Path.join root name) with
        | .error fault => .error (.system fault)
        | .ok spot =>
          match op other spot with
          | .error fault => .error (.system fault)
          | .ok disk => .ok disk := by
  cases hnul : Path.hasNul (Path.join root name) with
  | true => exact Or.inl ⟨.nulInPath, fun other _ => rfl⟩
  | false =>
    simp only [Bool.false_eq_true, if_false]
    cases harrival : Path.arrival .entry root top name with
    | error fault =>
      refine Or.inl ⟨.system fault, fun other hother => ?_⟩
      simp only [hother.reach_join hd hname, harrival]
    | ok spot =>
      have hspot := Path.eq_named_of_arrival harrival
      subst hspot
      rcases h with ⟨fault, hfault⟩ | ⟨e, hconcerns, hok⟩
      · refine Or.inl ⟨.system fault, fun other hother => ?_⟩
        simp only [hother.reach_join hd hname, harrival, hfault other hother]
      · refine Or.inr ⟨e, hconcerns, fun other hother => ?_⟩
        simp only [hother.reach_join hd hname, harrival, hok other hother]

theorem decided_createAt (hname : name ∈ names) (bytes : Bytes) :
    d.Decided root top names fun other => other.createAt (.file bytes) (.named top name false) := by
  by_cases hlong : Path.tooLong name = true
  · exact Or.inl ⟨.nameTooLong, fun other _ => by simp [createAt, hlong]⟩
  · cases hview : d.tree.view (top ++ [name]) with
    | some seen =>
      refine Or.inl ⟨.alreadyExists, fun other hother => ?_⟩
      simp [createAt, hlong, (hother.sameAt name hname).view_eq, hview]
    | none =>
      refine Or.inr ⟨.add (top ++ [name]) bytes, .add bytes hname, fun other hother => ?_⟩
      simp [createAt, hlong, (hother.sameAt name hname).view_eq, hview, Tree.Effect.on]

theorem decided_removeAt (hname : name ∈ names) :
    d.Decided root top names fun other => other.removeAt (.named top name false) := by
  by_cases hlong : Path.tooLong name = true
  · exact Or.inl ⟨.nameTooLong, fun other _ => by simp [removeAt, hlong]⟩
  · have hview : ∀ other, d.LooksLike other root top names →
        other.tree.view (top ++ [name]) = d.tree.view (top ++ [name]) :=
      fun other hother => (hother.sameAt name hname).view_eq
    cases hseen : d.tree.view (top ++ [name]) with
    | none =>
      refine Or.inl ⟨.noEntry, fun other hother => ?_⟩
      simp [removeAt, hlong, hview other hother, hseen]
    | some seen =>
      cases seen with
      | directory =>
        refine Or.inl ⟨.isDirectory, fun other hother => ?_⟩
        simp [removeAt, hlong, hview other hother, hseen]
      | file number bytes =>
        refine Or.inr ⟨.remove (top ++ [name]), .remove hname, fun other hother => ?_⟩
        simp [removeAt, hlong, hview other hother, hseen, Tree.Effect.on]
      | link number text =>
        refine Or.inr ⟨.remove (top ++ [name]), .remove hname, fun other hother => ?_⟩
        simp [removeAt, hlong, hview other hother, hseen, Tree.Effect.on]

theorem decided_replaceAt (hsource : source ∈ names) (htarget : target ∈ names)
    {moved : Tree.View} (hmoved : d.tree.view (top ++ [source]) = some moved) :
    d.Decided root top names fun other => other.replaceAt (top ++ [source]) (top ++ [target]) moved
      (d.tree.view (top ++ [target])) := by
  have hmove : source ≠ target → (Tree.Effect.move (top ++ [source]) (top ++ [target])).Concerns
      d.tree top names := .move hsource htarget
  cases hreplaced : d.tree.view (top ++ [target]) with
  | none =>
    have hne : source ≠ target := by
      rintro rfl
      rw [hmoved] at hreplaced
      cases hreplaced
    exact Or.inr ⟨_, hmove hne, fun other _ => rfl⟩
  | some replaced =>
    cases hsame : sameEntry d.tree (top ++ [source]) (top ++ [target]) with
    | true =>
      refine Or.inr ⟨.nothing, .nothing, fun other hother => ?_⟩
      simp only [replaceAt, hother.sameEntry_eq hsource htarget, hsame, if_true]
      rfl
    | false =>
      have hne : source ≠ target := by
        rintro rfl
        simp [sameEntry] at hsame
      have hdiffer : ∀ other, d.LooksLike other root top names →
          sameEntry other.tree (top ++ [source]) (top ++ [target]) = false :=
        fun other hother => (hother.sameEntry_eq hsource htarget).trans hsame
      cases hkind : moved.isDirectory with
      | false =>
        cases hover : replaced.isDirectory with
        | true =>
          refine Or.inl ⟨.isDirectory, fun other hother => ?_⟩
          simp [replaceAt, hdiffer other hother, hkind, hover]
        | false =>
          refine Or.inr ⟨_, hmove hne, fun other hother => ?_⟩
          simp [replaceAt, hdiffer other hother, hkind, hover, Tree.Effect.on]
      | true =>
        cases hover : replaced.isDirectory with
        | false =>
          refine Or.inl ⟨.notDirectory, fun other hother => ?_⟩
          simp [replaceAt, hdiffer other hother, hkind, hover]
        | true =>
          -- The directory that is replaced must be empty, here and on all disks like this one.
          have hempty : ∀ other, d.LooksLike other root top names →
              (other.tree.names (top ++ [target]) = [] ↔ d.tree.names (top ++ [target]) = []) :=
            fun other hother => (hother.sameAt target htarget).names_eq_nil_iff
          by_cases hnames : d.tree.names (top ++ [target]) = []
          · refine Or.inr ⟨_, hmove hne, fun other hother => ?_⟩
            simp [replaceAt, hdiffer other hother, hkind, hover, (hempty other hother).mpr hnames,
              Tree.Effect.on]
          · refine Or.inl ⟨.notEmpty, fun other hother => ?_⟩
            have hfull := mt (hempty other hother).mp hnames
            simp [replaceAt, hdiffer other hother, hkind, hover, hfull]

theorem decided_renameAt (hsource : source ∈ names) (htarget : target ∈ names) :
    d.Decided root top names fun other =>
      other.renameAt (.named top source false) (.named top target false) := by
  by_cases hlong : Path.tooLong source = true
  · exact Or.inl ⟨.nameTooLong, fun other _ => by simp [renameAt, hlong]⟩
  · cases hmoved : d.tree.view (top ++ [source]) with
    | none =>
      refine Or.inl ⟨.noEntry, fun other hother => ?_⟩
      simp [renameAt, hlong, (hother.sameAt source hsource).view_eq, hmoved]
    | some moved =>
      by_cases hother : Path.tooLong target = true
      · refine Or.inl ⟨.nameTooLong, fun other hlike => ?_⟩
        simp [renameAt, hlong, (hlike.sameAt source hsource).view_eq, hmoved, hother]
      · have hrename : ∀ other, d.LooksLike other root top names →
            other.renameAt (.named top source false) (.named top target false) =
              other.replaceAt (top ++ [source]) (top ++ [target]) moved
                (d.tree.view (top ++ [target])) := by
          intro other hlike
          rw [← (hlike.sameAt target htarget).view_eq]
          exact renameAt_sibling (by simpa using hlong)
            ((hlike.sameAt source hsource).view_eq.trans hmoved) (by simpa using hother)
        rcases decided_replaceAt hsource htarget hmoved with ⟨fault, hfault⟩ | ⟨e, hconcerns, hok⟩
        · exact Or.inl ⟨fault, fun other hlike =>
            (hrename other hlike).trans (hfault other hlike)⟩
        · exact Or.inr ⟨e, hconcerns, fun other hlike =>
            (hrename other hlike).trans (hok other hlike)⟩

theorem settled_create (hd : d.PlainNames root top names) (hname : name ∈ names) :
    d.Settled root top names fun other =>
      FileAction.settle other (Path.join root name) (other.create (Path.join root name)) :=
  (decided_of_named hd hname (decided_createAt hname [])).settled _

theorem settled_remove (hd : d.PlainNames root top names) (hname : name ∈ names) :
    d.Settled root top names fun other =>
      FileAction.settle other (Path.join root name) (other.remove (Path.join root name)) :=
  (decided_of_named hd hname (decided_removeAt hname)).settled _

theorem decided_rename (hd : d.PlainNames root top names) (hsource : source ∈ names)
    (htarget : target ∈ names) : d.Decided root top names fun other =>
      other.rename (Path.join root source) (Path.join root target) := by
  unfold rename
  cases hnul : Path.hasNul (Path.join root source) || Path.hasNul (Path.join root target) with
  | true => exact Or.inl ⟨.nulInPath, fun other _ => rfl⟩
  | false =>
    simp only [Bool.false_eq_true, if_false]
    cases hfirst : Path.arrival .entry root top source with
    | error fault =>
      refine Or.inl ⟨.system fault, fun other hother => ?_⟩
      simp only [hother.reach_join hd hsource, hfirst]
    | ok spot =>
      have hspot := Path.eq_named_of_arrival hfirst
      subst hspot
      cases hsecond : Path.arrival .entry root top target with
      | error fault =>
        refine Or.inl ⟨.system fault, fun other hother => ?_⟩
        simp only [hother.reach_join hd hsource, hfirst, hother.reach_join hd htarget, hsecond]
      | ok spot =>
        have hspot := Path.eq_named_of_arrival hsecond
        subst hspot
        have hrename : d.Decided root top names fun other =>
            other.renameAt (.named top source false) (.named top target false) :=
          decided_renameAt hsource htarget
        rcases hrename with ⟨fault, hfault⟩ | ⟨e, hconcerns, hok⟩
        · refine Or.inl ⟨.system fault, fun other hother => ?_⟩
          simp only [hother.reach_join hd hsource, hfirst, hother.reach_join hd htarget, hsecond,
            hfault other hother]
        · refine Or.inr ⟨e, hconcerns, fun other hother => ?_⟩
          simp only [hother.reach_join hd hsource, hfirst, hother.reach_join hd htarget, hsecond,
            hok other hother]

theorem settled_rename (hd : d.PlainNames root top names) (hsource : source ∈ names)
    (htarget : target ∈ names) : d.Settled root top names fun other =>
      FileAction.settle other (Path.join root source)
        (other.rename (Path.join root source) (Path.join root target)) :=
  (decided_rename hd hsource htarget).settled _

theorem LooksLike.sameFile_eq (h : d.LooksLike other root top names)
    (hd : d.PlainNames root top names) (hsource : source ∈ names) (htarget : target ∈ names) :
    other.sameFile (Path.join root source) (Path.join root target) =
      d.sameFile (Path.join root source) (Path.join root target) := by
  rw [sameFile, sameFile, h.target_join hd hsource, h.target_join hd htarget]

theorem LooksLike.openToRead_eq (h : d.LooksLike other root top names)
    (hd : d.PlainNames root top names) (hname : name ∈ names) :
    other.openToRead (Path.join root name) = d.openToRead (Path.join root name) := by
  rw [openToRead, openToRead, h.target_join hd hname]

/-- A name is opened to be written with a fault, or by making a file, or by emptying one. -/
theorem openToWrite_decided (hd : d.PlainNames root top names) (hname : name ∈ names) :
    (∃ fault, ∀ other, d.LooksLike other root top names →
      other.openToWrite (Path.join root name) = .error fault) ∨
    (∀ other, d.LooksLike other root top names → other.openToWrite (Path.join root name) =
      .ok (other.withTree (other.tree.addObject (top ++ [name]) (.file [])),
        other.tree.freshNumber)) ∨
    ∃ number old, d.tree.view (top ++ [name]) = some (.file number old) ∧
      d.target (Path.join root name) = .ok (.file number old) ∧
      ∀ other, d.LooksLike other root top names → other.openToWrite (Path.join root name) =
        .ok (other.withTree (other.tree.setContent number (.file [])), number) := by
  have hview : ∀ other, d.LooksLike other root top names →
      other.tree.view (top ++ [name]) = d.tree.view (top ++ [name]) :=
    fun other hother => (hother.sameAt name hname).view_eq
  cases hnul : Path.hasNul (Path.join root name) with
  | true =>
    refine Or.inl ⟨.nulInPath, fun other _ => ?_⟩
    simp only [openToWrite, hnul, if_true]
  | false =>
    cases harrival : Path.arrival .creation root top name with
    | error fault =>
      refine Or.inl ⟨.system fault, fun other hother => ?_⟩
      simp [openToWrite, hnul, hother.reach_join hd hname, harrival]
    | ok spot =>
      have hspot := Path.eq_named_of_arrival harrival
      subst hspot
      by_cases hlong : Path.tooLong name = true
      · refine Or.inl ⟨.system .nameTooLong, fun other hother => ?_⟩
        simp [openToWrite, hnul, hother.reach_join hd hname, harrival, openAt, hlong]
      · cases hseen : d.tree.view (top ++ [name]) with
        | none =>
          refine Or.inr (Or.inl fun other hother => ?_)
          simp [openToWrite, hnul, hother.reach_join hd hname, harrival, openAt, hlong,
            hview other hother, hseen]
        | some seen =>
          cases seen with
          | directory =>
            refine Or.inl ⟨.system .isDirectory, fun other hother => ?_⟩
            simp [openToWrite, hnul, hother.reach_join hd hname, harrival, openAt, hlong,
              hview other hother, hseen]
          | link number text => exact absurd hseen (hd.not_link name hname number text)
          | file number old =>
            have hobject : d.reach .object (Path.join root name) = .ok (.named top name false) :=
              (hd.looksLike_self.reach_join hd hname .object).trans harrival
            refine Or.inr (Or.inr ⟨number, old, rfl,
              target_eq_file hnul hobject (by simpa using hlong) hseen, fun other hother => ?_⟩)
            simp [openToWrite, hnul, hother.reach_join hd hname, harrival, openAt, hlong,
              hview other hother, hseen]

theorem settled_copy (hd : d.PlainNames root top names) (hsource : source ∈ names)
    (htarget : target ∈ names) : d.Settled root top names fun other =>
      other.copy (Path.join root source) (Path.join root target) := by
  cases hsame : d.sameFile (Path.join root source) (Path.join root target) with
  | error fault =>
    refine .of_eq (.error fault) fun other hother => ?_
    simp only [copy, hother.sameFile_eq hd hsource htarget, hsame]
  | ok same =>
    cases same with
    | true =>
      refine .of_eq (.error (.atPath (Path.join root source) .sameFile)) fun other hother => ?_
      simp only [copy, hother.sameFile_eq hd hsource htarget, hsame]
    | false =>
      cases hread : d.openToRead (Path.join root source) with
      | error fault =>
        refine .of_eq (.error (.atPath (Path.join root source) fault)) fun other hother => ?_
        simp only [copy, hother.sameFile_eq hd hsource htarget, hsame, copyBytes,
          hother.openToRead_eq hd hsource, hread]
      | ok held =>
        obtain ⟨bytes, hfile⟩ := openToRead_eq_ok hread
        have hcontent : ∀ other, d.LooksLike other root top names →
            other.tree.contentOf held = some (.file bytes) := fun other hother =>
          contentOf_of_target_eq_file ((hother.target_join hd hsource).trans hfile)
        rcases openToWrite_decided hd htarget with ⟨fault, hfault⟩ | hmake |
          ⟨number, old, hview, hold, hempty⟩
        · refine .of_eq (.error (.atPath (Path.join root source) fault)) fun other hother => ?_
          simp only [copy, hother.sameFile_eq hd hsource htarget, hsame, copyBytes,
            hother.openToRead_eq hd hsource, hread, hfault other hother]
        · refine ⟨.ok bytes.length, .add (top ++ [target]) bytes, .add bytes htarget,
            fun other hother => ?_⟩
          have hkept := Tree.contentOf_addObject_of_some (hcontent other hother)
            (top ++ [target]) (.file [])
          simp only [copy, hother.sameFile_eq hd hsource htarget, hsame, copyBytes,
            hother.openToRead_eq hd hsource, hread, hmake other hother, transfer, withTree, hkept,
            write, Tree.setContent_addObject, Tree.Effect.on]
        · have hne := ne_of_sameFile_eq_false hsame hfile hold
          refine ⟨.ok bytes.length, .rewrite number bytes, .rewrite bytes htarget hview,
            fun other hother => ?_⟩
          have hkept : (other.tree.setContent number (.file [])).contentOf held =
              some (.file bytes) := by
            rw [Tree.contentOf_setContent, if_neg hne, hcontent other hother]
          simp only [copy, hother.sameFile_eq hd hsource htarget, hsame, copyBytes,
            hother.openToRead_eq hd hsource, hread, hempty other hother, transfer, withTree, hkept,
            write, Tree.setContent_setContent, Tree.Effect.on]

end Disk

end FileShell
