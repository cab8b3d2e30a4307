import FileShell.Proofs.Disk.Effects
import FileShell.Proofs.Disk.Operations

/-!
# Giving entries another name

When an entry can take a place where another one may stand already, and what the tree is like
after that: nothing has changed if both places hold one and the same thing (`Tree.SameObject`), and
otherwise the entry has moved (`Tree.MovedTo`). No link is followed. `renameAt_sibling_eq_ok_iff`
says all of it for two names in one directory.
-/

namespace FileShell

namespace Tree

/-- Two places hold one and the same thing: they are one place, or names of one object. -/
def SameObject (t : Tree) (p q : Place) : Prop :=
  p = q ∨ t.Shares p q

/-- What stands at the second place gives way to what stands at the first one: nothing is there,
or neither of them is a directory, or both are and the second one is empty. -/
inductive GivesWay (t : Tree) (old new : Place) : Prop
  | absent : t.view new = none → GivesWay t old new
  | other : t.view old ≠ some .directory → t.view new ≠ some .directory → GivesWay t old new
  | empty : t.view old = some .directory → t.view new = some .directory →
      (∀ name, t.entryAt (new ++ [name]) = none) → GivesWay t old new

variable {t : Tree} {old new : Place}

theorem SameObject.view_eq (h : t.SameObject old new) : t.view old = t.view new := by
  rcases h with rfl | ⟨number, hold, hnew⟩
  · rfl
  · exact view_congr (hold.trans hnew.symm) fun _ => rfl

theorem View.isDirectory_iff {seen : View} : seen.isDirectory = true ↔ seen = .directory := by
  cases seen with
  | directory => simp [isDirectory]
  | file number bytes => simp [isDirectory]
  | link number target => simp [isDirectory]

theorem givesWay_iff {moved replaced : View} (hold : t.view old = some moved)
    (hnew : t.view new = some replaced) : t.GivesWay old new ↔
      moved.isDirectory = replaced.isDirectory ∧ (moved.isDirectory = true → t.names new = []) := by
  constructor
  · intro h
    cases h with
    | absent hview =>
      rw [hnew] at hview
      cases hview
    | other hfirst hsecond =>
      rw [hold, Ne, Option.some.injEq, ← View.isDirectory_iff, Bool.not_eq_true] at hfirst
      rw [hnew, Ne, Option.some.injEq, ← View.isDirectory_iff, Bool.not_eq_true] at hsecond
      simp [hfirst, hsecond]
    | empty hfirst hsecond hempty =>
      rw [hold, Option.some.injEq] at hfirst
      rw [hnew, Option.some.injEq] at hsecond
      subst hfirst hsecond
      exact ⟨rfl, fun _ => names_eq_nil_iff.mpr hempty⟩
  · rintro ⟨hkind, hempty⟩
    cases hmoved : moved.isDirectory with
    | true =>
      rw [hmoved] at hkind
      refine .empty ?_ ?_ (names_eq_nil_iff.mp (hempty hmoved))
      · rw [hold, View.isDirectory_iff.mp hmoved]
      · rw [hnew, View.isDirectory_iff.mp hkind.symm]
    | false =>
      rw [hmoved] at hkind
      refine .other ?_ ?_
      · rw [hold, Ne, Option.some.injEq, ← View.isDirectory_iff, hmoved]
        decide
      · rw [hnew, Ne, Option.some.injEq, ← View.isDirectory_iff, ← hkind]
        decide

theorem GivesWay.names_eq_nil (h : t.GivesWay old new) (hview : t.view new = some .directory) :
    t.names new = [] := by
  cases h with
  | absent hnone =>
    rw [hview] at hnone
    cases hnone
  | other _ hnot => exact absurd hview hnot
  | empty _ _ hempty => exact names_eq_nil_iff.mpr hempty

/-- From one tree to another, what stood at one place has moved to another place, together with all
that was below it: the same is seen there, and it has the same other names. What it has replaced,
if anything, had nothing below it and has lost this name only. -/
structure MovedTo (t u : Tree) (old new : Place) : Prop where
  arrived : ∀ rest, u.entryAt (new ++ rest) = t.entryAt (old ++ rest)
  seen : ∀ rest, u.view (new ++ rest) = t.view (old ++ rest)
  shares : ∀ place, within old place = false → within new place = false →
    (u.Shares new place ↔ t.Shares old place)
  gone : ∀ rest, u.entryAt (old ++ rest) = none
  elsewhere : ∀ place, within old place = false → within new place = false →
    u.entryAt place = t.entryAt place
  contentOf_eq : ∀ number, u.contentOf number = t.contentOf number
  bare : ∀ rest ≠ [], t.entryAt (new ++ rest) = none

theorem movedTo_move (hclosed : t.Closed) (hlen : old.length = new.length) (hne : old ≠ new)
    (hgives : t.GivesWay old new) : t.MovedTo (t.move old new) old new where
  arrived := t.entryAt_move_target hlen hne
  seen := fun rest => view_congr (t.entryAt_move_target hlen hne rest) fun _ => rfl
  shares := by
    intro place hold hnew
    have harrived := t.entryAt_move_target hlen hne []
    rw [List.append_nil, List.append_nil] at harrived
    rw [Shares, Shares, harrived, t.entryAt_move_other hold hnew]
  gone := t.entryAt_move_source hlen hne
  elsewhere := fun _ hold hnew => t.entryAt_move_other hold hnew
  contentOf_eq := fun _ => rfl
  bare := fun _ hrest => hclosed.entryAt_below_of_names hgives.names_eq_nil hrest

/-- What stands somewhere afterwards has arrived, or has stood there before. -/
theorem MovedTo.entryAt_cases {u : Tree} (h : t.MovedTo u old new) {place : Place}
    (hplace : u.entryAt place ≠ none) :
    (∃ rest, place = new ++ rest ∧ u.entryAt place = t.entryAt (old ++ rest)) ∨
      within old place = false ∧ within new place = false ∧
        u.entryAt place = t.entryAt place := by
  cases hnew : within new place with
  | true =>
    obtain ⟨rest, rfl⟩ := within_iff.mp hnew
    exact Or.inl ⟨rest, rfl, h.arrived rest⟩
  | false =>
    cases hold : within old place with
    | true =>
      obtain ⟨rest, rfl⟩ := within_iff.mp hold
      exact absurd (h.gone rest) hplace
    | false => exact Or.inr ⟨rfl, rfl, h.elsewhere place hold hnew⟩

end Tree

namespace Disk

variable {d after : Disk} {source target : String}

theorem sameEntry_iff {t : Tree} {p q : Place} : sameEntry t p q = true ↔ t.SameObject p q := by
  unfold sameEntry Tree.SameObject Tree.Shares
  rw [Bool.or_eq_true, decide_eq_true_iff]
  cases t.entryAt p with
  | none => simp
  | some entry =>
    cases t.entryAt q with
    | none => simp
    | some other =>
      cases entry with
      | directory => simp
      | object m =>
        cases other with
        | directory => simp
        | object n => simp [eq_comm]

theorem replaceAt_eq_ok_iff {old new : Place} {moved : Tree.View}
    (hold : d.tree.view old = some moved) :
    d.replaceAt old new moved (d.tree.view new) = .ok after ↔
      d.tree.SameObject old new ∧ after = d ∨
      ¬ d.tree.SameObject old new ∧ d.tree.GivesWay old new ∧
        after = d.withTree (d.tree.move old new) := by
  cases hnew : d.tree.view new with
  | none =>
    have hdiffer : ¬ d.tree.SameObject old new := by
      intro hsame
      rw [hsame.view_eq, hnew] at hold
      cases hold
    have hgives : d.tree.GivesWay old new := .absent hnew
    simpa [replaceAt, hdiffer, hgives] using eq_comm
  | some replaced =>
    rw [replaceAt]
    by_cases hsame : d.tree.SameObject old new
    · simpa [sameEntry_iff.mpr hsame, hsame] using eq_comm
    · rw [if_neg (mt sameEntry_iff.mp hsame), Tree.givesWay_iff hold hnew]
      cases hmoved : moved.isDirectory with
      | true =>
        cases hreplaced : replaced.isDirectory with
        | false => simp [hsame]
        | true =>
          by_cases hnames : d.tree.names new = []
          · simpa [hsame, hnames] using eq_comm
          · simp [hsame, hnames]
      | false =>
        cases hreplaced : replaced.isDirectory with
        | true => simp [hsame]
        | false => simpa [hsame] using eq_comm

/-- Between two names in one directory it matters only what is seen at them. -/
theorem renameAt_sibling {top : Place} {name other : String} {moved : Tree.View}
    (hname : Path.tooLong name = false) (hview : d.tree.view (top ++ [name]) = some moved)
    (hother : Path.tooLong other = false) :
    d.renameAt (.named top name false) (.named top other false) =
      d.replaceAt (top ++ [name]) (top ++ [other]) moved (d.tree.view (top ++ [other])) := by
  simp [renameAt, hname, hview, hother, Tree.not_within_above]

theorem renameAt_eq_ok {first second : Spot} (h : d.renameAt first second = .ok after) :
    ∃ directory name slashed other newName newSlashed moved,
      first = .named directory name slashed ∧ second = .named other newName newSlashed ∧
      Path.tooLong name = false ∧ Path.tooLong newName = false ∧
      d.tree.view (directory ++ [name]) = some moved ∧
      d.replaceAt (directory ++ [name]) (other ++ [newName]) moved
        (d.tree.view (other ++ [newName])) = .ok after := by
  unfold renameAt at h
  split at h
  · next directory name slashed other newName newSlashed =>
    dsimp only at h
    split at h
    · cases h
    · next hlong =>
      split at h
      · cases h
      · next moved hview =>
        split at h
        · cases h
        · next hnew =>
          split at h
          · cases h
          · split at h
            · cases h
            · split at h
              · cases h
              · exact ⟨directory, name, slashed, other, newName, newSlashed, moved, rfl, rfl,
                  by simpa using hlong, by simpa using hnew, hview, h⟩
  · cases h

/-- An entry is given another name in its directory if something is seen at the old name, neither
name is too long, and what has the new name gives way. Two names of one thing both stay. -/
theorem renameAt_sibling_eq_ok_iff {top : Place} {name other : String} :
    d.renameAt (.named top name false) (.named top other false) = .ok after ↔
      Path.tooLong name = false ∧ Path.tooLong other = false ∧
      d.tree.view (top ++ [name]) ≠ none ∧
      (d.tree.SameObject (top ++ [name]) (top ++ [other]) ∧ after = d ∨
        ¬ d.tree.SameObject (top ++ [name]) (top ++ [other]) ∧
          d.tree.GivesWay (top ++ [name]) (top ++ [other]) ∧
          after = d.withTree (d.tree.move (top ++ [name]) (top ++ [other]))) := by
  constructor
  · intro h
    obtain ⟨_, _, _, _, _, _, moved, ⟨⟩, ⟨⟩, hname, hother, hview, hreplace⟩ := renameAt_eq_ok h
    exact ⟨hname, hother, by simp [hview], (replaceAt_eq_ok_iff hview).mp hreplace⟩
  · rintro ⟨hname, hother, hsome, hreplace⟩
    obtain ⟨moved, hview⟩ := Option.ne_none_iff_exists'.mp hsome
    rw [renameAt_sibling hname hview hother]
    exact (replaceAt_eq_ok_iff hview).mpr hreplace

theorem rename_eq_ok_iff : d.rename source target = .ok after ↔
    Path.hasNul source = false ∧ Path.hasNul target = false ∧ ∃ first second,
      d.reach .entry source = .ok first ∧ d.reach .entry target = .ok second ∧
      d.renameAt first second = .ok after := by
  unfold rename
  cases hsource : Path.hasNul source with
  | true => simp
  | false =>
    cases htarget : Path.hasNul target with
    | true => simp
    | false =>
      cases d.reach .entry source with
      | error fault => simp
      | ok first =>
        cases d.reach .entry target with
        | error fault => simp
        | ok second =>
          cases hrename : d.renameAt first second with
          | error fault => simp [hrename]
          | ok disk => simp [hrename]

/-- What is moved takes the place of nothing, of an empty directory, or of no directory at all.
Two names of one thing both stay. -/
def Moves (d : Disk) (old new : Place) (after : Disk) : Prop :=
  after = d ∨ old ≠ new ∧ (d.tree.view new = some .directory → d.tree.names new = []) ∧
    after = d.withTree (d.tree.move old new)

theorem moves_of_replaceAt {old new : Place} {moved : Tree.View}
    (hold : d.tree.view old = some moved)
    (h : d.replaceAt old new moved (d.tree.view new) = .ok after) : d.Moves old new after := by
  rcases (replaceAt_eq_ok_iff hold).mp h with ⟨-, rfl⟩ | ⟨hdiffer, hgives, rfl⟩
  · exact Or.inl rfl
  · refine Or.inr ⟨?_, hgives.names_eq_nil, rfl⟩
    rintro rfl
    exact hdiffer (Or.inl rfl)

theorem rename_eq_ok (h : d.rename source target = .ok after) :
    ∃ directory name slashed other newName newSlashed,
      d.reach .entry source = .ok (.named directory name slashed) ∧
      d.reach .entry target = .ok (.named other newName newSlashed) ∧
      d.Moves (directory ++ [name]) (other ++ [newName]) after := by
  obtain ⟨-, -, first, second, hfirst, hsecond, hrename⟩ := rename_eq_ok_iff.mp h
  obtain ⟨directory, name, slashed, other, newName, newSlashed, moved, rfl, rfl, -, -, hview,
    hreplace⟩ := renameAt_eq_ok hrename
  exact ⟨directory, name, slashed, other, newName, newSlashed, hfirst, hsecond,
    moves_of_replaceAt hview hreplace⟩

/-- The paths of two names in a directory are renamed as these names are, if they fit. -/
theorem rename_join_eq_ok_iff {root : String} {top : Place}
    (hroot : d.target root = .ok (.directory top)) (hsource : Path.IsComponent source)
    (htarget : Path.IsComponent target) :
    d.rename (Path.join root source) (Path.join root target) = .ok after ↔
      Path.Fits (Path.join root source) ∧ Path.Fits (Path.join root target) ∧
      d.renameAt (.named top source false) (.named top target false) = .ok after := by
  have hnul := (target_eq_ok hroot).1
  rw [rename_eq_ok_iff]
  constructor
  · rintro ⟨-, -, first, second, hfirst, hsecond, hrename⟩
    obtain ⟨hfits, rfl⟩ := (reach_entry_join_iff hroot hsource).mp hfirst
    obtain ⟨hfits', rfl⟩ := (reach_entry_join_iff hroot htarget).mp hsecond
    exact ⟨hfits, hfits', hrename⟩
  · rintro ⟨hfits, hfits', hrename⟩
    exact ⟨Path.hasNul_join hnul hsource, Path.hasNul_join hnul htarget, _, _,
      (reach_entry_join_iff hroot hsource).mpr ⟨hfits, rfl⟩,
      (reach_entry_join_iff hroot htarget).mpr ⟨hfits', rfl⟩, hrename⟩

end Disk

end FileShell
