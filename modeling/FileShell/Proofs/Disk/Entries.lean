import Mathlib.Data.List.Basic
import Mathlib.Data.List.Induction
import FileShell.Proofs.Disk.Contents

/-!
# What stands at each place

How the operations on trees change the entries, place by place. Adding and removing concern a
single place. Moving between two places of one depth carries over all that is below the first one,
and what was below the second one is gone (`entryAt_move_target`, `entryAt_move_source`,
`entryAt_move_other`).
-/

namespace FileShell

section Lookup

variable {α β : Type} [BEq α] [LawfulBEq α] {f : α → α} {key : α}

theorem lookup_map_key {source : α} (pairs : List (α × β))
    (h : ∀ p ∈ pairs, f p.1 = key ↔ p.1 = source) :
    (pairs.map fun p => (f p.1, p.2)).lookup key = pairs.lookup source := by
  induction pairs with
  | nil => rfl
  | cons p pairs ih =>
    have hrest := ih fun q hq => h q (List.mem_cons_of_mem _ hq)
    have hhead := h p List.mem_cons_self
    rw [List.map_cons, List.lookup_cons, List.lookup_cons, hrest]
    by_cases hp : p.1 = source
    · rw [hhead.mpr hp, hp, BEq.rfl, BEq.rfl]
    · have hf : (key == f p.1) = false := beq_false_of_ne fun heq => hp (hhead.mp heq.symm)
      have hs : (source == p.1) = false := beq_false_of_ne (Ne.symm hp)
      rw [hf, hs]

theorem lookup_map_key_eq_none (pairs : List (α × β)) (h : ∀ p ∈ pairs, f p.1 ≠ key) :
    (pairs.map fun p => (f p.1, p.2)).lookup key = none := by
  rw [List.lookup_eq_none_iff]
  intro p hp
  obtain ⟨q, hq, rfl⟩ := List.mem_map.mp hp
  exact bne_iff_ne.mpr (Ne.symm (h q hq))

end Lookup

namespace Tree

variable {t : Tree} {place source target : Place}

theorem entryAt_of_ne_nil (t : Tree) (h : place ≠ []) : t.entryAt place = t.entries.lookup place :=
  if_neg h

theorem entryAt_removeEntry (t : Tree) (h : place ≠ []) (other : Place) :
    (t.removeEntry place).entryAt other = if other = place then none else t.entryAt other := by
  by_cases hnil : other = []
  · subst hnil
    rw [if_neg (Ne.symm h)]
    rfl
  · have hkeep := lookup_filter_key t.entries (fun k => decide (k ≠ place)) other
    rw [entryAt_of_ne_nil _ hnil, entryAt_of_ne_nil _ hnil, removeEntry, hkeep]
    by_cases hother : other = place
    · simp [hother]
    · simp [hother]

theorem entryAt_setEntry (t : Tree) (h : place ≠ []) (entry : Entry) (other : Place) :
    (t.setEntry place entry).entryAt other =
      if other = place then some entry else t.entryAt other := by
  by_cases hother : other = place
  · subst hother
    rw [entryAt_of_ne_nil _ h, if_pos rfl, setEntry, List.lookup_cons, BEq.rfl]
  · -- Elsewhere it does not matter whether the old entry is only removed.
    have hremove := t.entryAt_removeEntry h other
    rw [if_neg hother] at hremove ⊢
    rw [← hremove]
    by_cases hnil : other = []
    · subst hnil
      rfl
    · have hne : (other == place) = false := beq_false_of_ne hother
      rw [entryAt_of_ne_nil _ hnil, entryAt_of_ne_nil _ hnil, setEntry, List.lookup_cons, hne]
      rfl

theorem le_foldr_max {n : Nat} {ns : List Nat} (h : n ∈ ns) : n ≤ ns.foldr max 0 := by
  induction ns with
  | nil => cases h
  | cons m ns ih =>
    rw [List.foldr_cons]
    rcases List.mem_cons.mp h with rfl | hmem
    · omega
    · have hle := ih hmem
      omega

theorem contentOf_freshNumber (t : Tree) : t.contentOf t.freshNumber = none := by
  rw [contentOf, List.lookup_eq_none_iff]
  intro p hp
  have hle : p.1 ≤ (t.objects.map Prod.fst ++ t.entries.map fun e => numberOf e.2).foldr max 0 :=
    le_foldr_max (List.mem_append_left _ (List.mem_map_of_mem hp))
  rw [bne_iff_ne, freshNumber]
  omega

theorem view_of_entryAt {number : Nat} {bytes : Bytes}
    (hentry : t.entryAt place = some (.object number))
    (hcontent : t.contentOf number = some (.file bytes)) :
    t.view place = some (.file number bytes) := by
  rw [view, hentry]
  simp only [hcontent]

theorem entryAt_addObject (t : Tree) (h : place ≠ []) (content : Content) :
    (t.addObject place content).entryAt place = some (.object t.freshNumber) := by
  rw [addObject, entryAt_setEntry _ h, if_pos rfl]

theorem entryAt_addObject_of_ne (t : Tree) (h : place ≠ []) {other : Place}
    (hother : other ≠ place) (content : Content) :
    (t.addObject place content).entryAt other = t.entryAt other := by
  rw [addObject, entryAt_setEntry _ h, if_neg hother]
  rfl

theorem contentOf_addObject (t : Tree) (place : Place) (content : Content) :
    (t.addObject place content).contentOf t.freshNumber = some content := by
  have hset := t.contentOf_setContent t.freshNumber t.freshNumber content
  rw [if_pos rfl] at hset
  exact hset

theorem contentOf_addObject_of_ne {number : Nat} (h : number ≠ t.freshNumber) (place : Place)
    (content : Content) : (t.addObject place content).contentOf number = t.contentOf number := by
  have hset := t.contentOf_setContent number t.freshNumber content
  rw [if_neg h] at hset
  exact hset

section Move

theorem within_iff {top : Place} : within top place = true ↔ ∃ rest, place = top ++ rest := by
  rw [within, List.isPrefixOf_iff_prefix]
  constructor
  · rintro ⟨rest, rfl⟩
    exact ⟨rest, rfl⟩
  · rintro ⟨rest, rfl⟩
    exact ⟨rest, rfl⟩

theorem movePlace_append (source target rest : Place) :
    movePlace source target (source ++ rest) = target ++ rest := by
  rw [movePlace, if_pos (within_iff.mpr ⟨rest, rfl⟩), List.drop_left]

theorem movePlace_of_not_within (h : within source place = false) :
    movePlace source target place = place := by
  rw [movePlace, h]
  rfl

/-- Two places of one depth have nothing below them in common. -/
theorem not_within_of_ne (hlen : source.length = target.length) (hne : source ≠ target)
    (rest : Place) : within target (source ++ rest) = false := by
  rw [Bool.eq_false_iff]
  intro hwithin
  have htarget : target <+: source ++ rest := List.isPrefixOf_iff_prefix.mp hwithin
  have hsource : source <+: source ++ rest := List.prefix_append source rest
  have hfront := List.prefix_of_prefix_length_le hsource htarget (Nat.le_of_eq hlen)
  exact hne (hfront.eq_of_length hlen)

theorem not_within_above (top : Place) (name : String) : within (top ++ [name]) top = false := by
  rw [Bool.eq_false_iff]
  intro hwithin
  obtain ⟨rest, hrest⟩ := within_iff.mp hwithin
  have hlen := congrArg List.length hrest
  simp at hlen

theorem not_within_of_append {top rest : Place} (h : within top (place ++ rest) = false) :
    within top place = false := by
  rw [Bool.eq_false_iff] at h ⊢
  intro hwithin
  obtain ⟨more, rfl⟩ := within_iff.mp hwithin
  exact h (within_iff.mpr ⟨more ++ rest, by rw [List.append_assoc]⟩)

theorem ne_nil_of_ne (hlen : source.length = target.length) (hne : source ≠ target) :
    source ≠ [] := by
  rintro rfl
  exact hne (List.eq_nil_of_length_eq_zero hlen.symm).symm

/-- All that stood at the source or below it is found at the target. -/
theorem entryAt_move_target (t : Tree) (hlen : source.length = target.length)
    (hne : source ≠ target) (rest : Place) :
    (t.move source target).entryAt (target ++ rest) = t.entryAt (source ++ rest) := by
  have hsource : source ++ rest ≠ [] := List.append_ne_nil_of_left_ne_nil (ne_nil_of_ne hlen hne) _
  have htarget : target ++ rest ≠ [] :=
    List.append_ne_nil_of_left_ne_nil (ne_nil_of_ne hlen.symm (Ne.symm hne)) _
  have hkeep := lookup_filter_key t.entries (fun k => !within target k) (source ++ rest)
  rw [not_within_of_ne hlen hne, Bool.not_false, if_pos rfl] at hkeep
  rw [entryAt_of_ne_nil _ hsource, entryAt_of_ne_nil _ htarget, move, ← hkeep]
  -- Of the entries that are kept only the one below the source gets this place.
  apply lookup_map_key
  rintro ⟨other, entry⟩ hmem
  have hother : within target other = false := by simpa using (List.mem_filter.mp hmem).2
  by_cases hwithin : within source other = true
  · obtain ⟨more, rfl⟩ := within_iff.mp hwithin
    rw [movePlace_append, List.append_cancel_left_eq, List.append_cancel_left_eq]
  · rw [Bool.not_eq_true] at hwithin
    rw [movePlace_of_not_within hwithin]
    constructor
    · rintro rfl
      rw [within_iff.mpr ⟨rest, rfl⟩] at hother
      cases hother
    · rintro rfl
      rw [within_iff.mpr ⟨rest, rfl⟩] at hwithin
      cases hwithin

theorem entryAt_move_source (t : Tree) (hlen : source.length = target.length)
    (hne : source ≠ target) (rest : Place) :
    (t.move source target).entryAt (source ++ rest) = none := by
  have hsource : source ++ rest ≠ [] := List.append_ne_nil_of_left_ne_nil (ne_nil_of_ne hlen hne) _
  rw [entryAt_of_ne_nil _ hsource, move]
  apply lookup_map_key_eq_none
  rintro ⟨other, entry⟩ hmem heq
  by_cases hwithin : within source other = true
  · obtain ⟨more, rfl⟩ := within_iff.mp hwithin
    rw [movePlace_append] at heq
    have hnot := not_within_of_ne hlen hne rest
    rw [← heq, within_iff.mpr ⟨more, rfl⟩] at hnot
    cases hnot
  · rw [Bool.not_eq_true] at hwithin
    rw [movePlace_of_not_within hwithin] at heq
    rw [heq, within_iff.mpr ⟨rest, rfl⟩] at hwithin
    cases hwithin

theorem entryAt_move_other (t : Tree) (hsource : within source place = false)
    (htarget : within target place = false) :
    (t.move source target).entryAt place = t.entryAt place := by
  by_cases hnil : place = []
  · subst hnil
    rfl
  · have hkeep := lookup_filter_key t.entries (fun k => !within target k) place
    rw [htarget, Bool.not_false, if_pos rfl] at hkeep
    rw [entryAt_of_ne_nil _ hnil, entryAt_of_ne_nil _ hnil, move, ← hkeep]
    apply lookup_map_key
    rintro ⟨other, entry⟩ -
    by_cases hwithin : within source other = true
    · obtain ⟨more, rfl⟩ := within_iff.mp hwithin
      rw [movePlace_append]
      constructor
      · rintro rfl
        rw [within_iff.mpr ⟨more, rfl⟩] at htarget
        cases htarget
      · rintro rfl
        rw [within_iff.mpr ⟨more, rfl⟩] at hsource
        cases hsource
    · rw [Bool.not_eq_true] at hwithin
      rw [movePlace_of_not_within hwithin]

end Move

/-- Every entry is in a directory. -/
def Closed (t : Tree) : Prop :=
  ∀ place name, t.entryAt (place ++ [name]) ≠ none → t.entryAt place = some .directory

/-- Where a place has no entries right below it, it has none further down. -/
theorem Closed.entryAt_below (h : t.Closed) (hempty : ∀ name, t.entryAt (place ++ [name]) = none)
    {rest : Place} (hrest : rest ≠ []) : t.entryAt (place ++ rest) = none := by
  induction rest using List.reverseRecOn with
  | nil => exact absurd rfl hrest
  | append_singleton front last ih =>
    by_cases hfront : front = []
    · rw [hfront]
      exact hempty last
    · by_contra hentry
      rw [← List.append_assoc] at hentry
      -- What is in no directory would be in one that does not exist.
      have hdirectory := h _ _ hentry
      rw [ih hfront] at hdirectory
      cases hdirectory

theorem mem_names {name : String} (h : t.entryAt (place ++ [name]) ≠ none) :
    name ∈ t.names place := by
  have hne : place ++ [name] ≠ [] := List.append_ne_nil_of_right_ne_nil _ (List.cons_ne_nil _ _)
  obtain ⟨entry, hentry⟩ := Option.ne_none_iff_exists'.mp h
  rw [entryAt_of_ne_nil _ hne, List.lookup_eq_some_iff] at hentry
  obtain ⟨before, after, hentries, -⟩ := hentry
  rw [names, List.mem_filterMap]
  refine ⟨(place ++ [name], entry), by rw [hentries]; simp, ?_⟩
  simp

theorem entryAt_of_mem_names {name : String} (h : name ∈ t.names place) :
    t.entryAt (place ++ [name]) ≠ none := by
  rw [names, List.mem_filterMap] at h
  obtain ⟨⟨other, entry⟩, hmem, hsome⟩ := h
  split at hsome
  · next hplace =>
    obtain ⟨rfl, hne⟩ := hplace
    rw [List.dropLast_append_getLast? name hsome, entryAt_of_ne_nil _ hne, Ne,
      List.lookup_eq_none_iff]
    intro hnone
    simpa using hnone _ hmem
  · cases hsome

theorem names_eq_nil_iff : t.names place = [] ↔ ∀ name, t.entryAt (place ++ [name]) = none := by
  constructor
  · intro hnames name
    by_contra hentry
    have hmem := mem_names hentry
    rw [hnames] at hmem
    cases hmem
  · intro hentry
    rw [List.eq_nil_iff_forall_not_mem]
    intro name hmem
    exact entryAt_of_mem_names hmem (hentry name)

/-- Where a place is no directory, or one without entries, nothing is below it. -/
theorem Closed.entryAt_below_of_names (h : t.Closed)
    (hnames : t.view place = some .directory → t.names place = []) {rest : Place}
    (hrest : rest ≠ []) : t.entryAt (place ++ rest) = none := by
  apply h.entryAt_below _ hrest
  intro child
  by_contra hchild
  -- An entry below would make the place a directory that is not empty.
  have hdirectory := h _ _ hchild
  have hmem := mem_names hchild
  rw [hnames (by rw [view, hdirectory])] at hmem
  cases hmem

end Tree

end FileShell
