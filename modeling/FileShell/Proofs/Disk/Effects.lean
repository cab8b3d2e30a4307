import FileShell.Proofs.Disk.Writing

/-!
# Effects on a tree

What commands do to a tree comes to one of a few effects, each of which concerns some names in a
directory. For every place `Effect.origin` tells where what stands there afterwards has come from;
what is seen and what is shared follow from that (`view_on`, `shares_on`). So effects on names that
are apart leave each other alone (`sameAt_on`), and can change places (`alike_on_on`): then only the
numbers of new files may differ.
-/

namespace FileShell.Tree

/-- What is seen at a place, without the number of the object. -/
inductive Sight where
  | directory
  | file (bytes : Bytes)
  | link (target : String)
  deriving DecidableEq, Repr

def View.sight : View → Sight
  | directory => .directory
  | file _ bytes => .file bytes
  | link _ target => .link target

def sight (t : Tree) (place : Place) : Option Sight :=
  (t.view place).map View.sight

/-- Two places are names of one object. -/
def Shares (t : Tree) (p q : Place) : Prop :=
  ∃ number, t.entryAt p = some (.object number) ∧ t.entryAt q = some (.object number)

/-- Two trees that differ in the numbers of objects at most: the same is seen everywhere, and the
same places are names of one object. -/
structure Alike (t u : Tree) : Prop where
  sight_eq : ∀ place, t.sight place = u.sight place
  shares_iff : ∀ p q, t.Shares p q ↔ u.Shares p q

/-- What a command does to a tree. -/
inductive Effect where
  | nothing
  /-- A new file. -/
  | add (place : Place) (bytes : Bytes)
  | remove (place : Place)
  | move (source target : Place)
  /-- Other bytes for the file of a number. -/
  | rewrite (number : Nat) (bytes : Bytes)
  deriving DecidableEq, Repr

/-- Where something comes from. -/
inductive Origin where
  /-- There is nothing. -/
  | nothing
  /-- It stood at this place before. -/
  | kept (place : Place)
  /-- It is a new file. -/
  | made (bytes : Bytes)

namespace Origin

/-- The entry of what comes from somewhere in a tree. -/
def entryIn (t : Tree) : Origin → Option Entry
  | nothing => none
  | kept place => t.entryAt place
  | made _ => some (.object t.freshNumber)

/-- What is seen of what comes from somewhere in a tree, when all that is seen is revised. -/
def viewIn (t : Tree) (revise : View → View) : Origin → Option View
  | nothing => none
  | kept place => (t.view place).map revise
  | made bytes => some (.file t.freshNumber bytes)

/-- Whether things from two origins share an object. There is one new file at most. -/
def SharesIn (t : Tree) : Origin → Origin → Prop
  | kept p, kept q => t.Shares p q
  | made _, made _ => True
  | _, _ => False

end Origin

namespace Effect

def on : Effect → Tree → Tree
  | nothing, t => t
  | add place bytes, t => t.addObject place (.file bytes)
  | remove place, t => t.removeEntry place
  | move source target, t => t.move source target
  | rewrite number bytes, t => t.setContent number (.file bytes)

/-- Where what stands at a place after the effect has come from. -/
def origin : Effect → Place → Origin
  | nothing, place => .kept place
  | add new bytes, place => if place = new then .made bytes else .kept place
  | remove gone, place => if place = gone then .nothing else .kept place
  | move source target, place =>
    if within target place then .kept (source ++ place.drop target.length)
    else if within source place then .nothing
    else .kept place
  | rewrite _ _, place => .kept place

/-- How the effect changes what is seen of an object. -/
def revise : Effect → View → View
  | rewrite number bytes, seen => seen.rewritten number bytes
  | nothing, seen => seen
  | add .., seen => seen
  | remove _, seen => seen
  | move .., seen => seen

/-- The effect concerns nothing but these names in a directory, and what they stand for. -/
inductive Concerns (t : Tree) (top : Place) (names : List String) : Effect → Prop
  | nothing : Concerns t top names .nothing
  | add {name : String} (bytes : Bytes) : name ∈ names →
      Concerns t top names (.add (top ++ [name]) bytes)
  | remove {name : String} : name ∈ names → Concerns t top names (.remove (top ++ [name]))
  | move {source target : String} : source ∈ names → target ∈ names → source ≠ target →
      Concerns t top names (.move (top ++ [source]) (top ++ [target]))
  | rewrite {name : String} {number : Nat} {held : Bytes} (bytes : Bytes) : name ∈ names →
      t.view (top ++ [name]) = some (.file number held) →
      Concerns t top names (.rewrite number bytes)

end Effect

/-- A place is at or below one of the names in a directory. -/
def Under (top : Place) (names : List String) (place : Place) : Prop :=
  ∃ name ∈ names, ∃ rest, place = top ++ [name] ++ rest

/-- No name is on both lists, and none of the first list shares an object with one of the second. -/
structure Apart (t : Tree) (top : Place) (names others : List String) : Prop where
  notMem : ∀ name ∈ names, name ∉ others
  not_shares : ∀ name ∈ names, ∀ other ∈ others, ¬ t.Shares (top ++ [name]) (top ++ [other])

/-- One tree is as the other at a place: what is seen there, and the entries below. -/
structure SameAt (t u : Tree) (place : Place) : Prop where
  view_eq : u.view place = t.view place
  entryAt_eq : ∀ rest, u.entryAt (place ++ rest) = t.entryAt (place ++ rest)

variable {t u : Tree} {top place : Place} {names others : List String} {e e' : Effect}

theorem Shares.symm {p q : Place} (h : t.Shares p q) : t.Shares q p := by
  obtain ⟨number, hp, hq⟩ := h
  exact ⟨number, hq, hp⟩

theorem Apart.symm (h : t.Apart top names others) : t.Apart top others names where
  notMem := fun other hother hname => h.notMem other hname hother
  not_shares := fun other hother name hname hshares =>
    h.not_shares name hname other hother hshares.symm

theorem Apart.not_under (h : t.Apart top names others) (hplace : Under top names place) :
    ¬ Under top others place := by
  obtain ⟨name, hname, rest, rfl⟩ := hplace
  rintro ⟨other, hother, more, heq⟩
  rw [List.append_assoc, List.append_assoc] at heq
  have hcons := List.append_cancel_left heq
  rw [List.singleton_append, List.singleton_append, List.cons_eq_cons] at hcons
  obtain ⟨rfl, -⟩ := hcons
  exact h.notMem name hname hother

theorem under_of_mem {name : String} (h : name ∈ names) : Under top names (top ++ [name]) :=
  ⟨name, h, [], (List.append_nil _).symm⟩

theorem within_of_not_under {name : String} (hplace : ¬ Under top names place)
    (hname : name ∈ names) : within (top ++ [name]) place = false := by
  rw [Bool.eq_false_iff]
  intro hwithin
  exact hplace ⟨name, hname, within_iff.mp hwithin⟩

/-- While the objects stay as they are, what is seen is what the entries say. -/
theorem view_eq_viewIn {origin : Origin} (hobjects : u.objects = t.objects)
    (hmade : ∀ bytes, origin ≠ .made bytes) (hentry : u.entryAt place = origin.entryIn t) :
    u.view place = origin.viewIn t id := by
  cases origin with
  | nothing => rw [view, hentry, Origin.entryIn, Origin.viewIn]
  | made bytes => exact absurd rfl (hmade bytes)
  | kept before =>
    have hcontent : ∀ number, u.contentOf number = t.contentOf number := by
      intro number
      rw [contentOf, contentOf, hobjects]
    rw [Origin.viewIn, Option.map_id, id]
    exact view_congr hentry hcontent

theorem Origin.sharesIn_kept_left {before : Place} {origin : Origin} :
    (kept before).SharesIn t origin ↔ ∃ other, origin = kept other ∧ t.Shares before other := by
  cases origin with
  | nothing => simp [SharesIn]
  | kept place => simp [SharesIn]
  | made bytes => simp [SharesIn]

theorem Origin.sharesIn_kept_right {before : Place} {origin : Origin} :
    origin.SharesIn t (kept before) ↔ ∃ other, origin = kept other ∧ t.Shares other before := by
  cases origin with
  | nothing => simp [SharesIn]
  | kept place => simp [SharesIn]
  | made bytes => simp [SharesIn]

theorem Effect.revise_directory (e : Effect) : e.revise .directory = .directory := by
  cases e with
  | nothing => rfl
  | add place bytes => rfl
  | remove place => rfl
  | move source target => rfl
  | rewrite number bytes => rfl

namespace Effect.Concerns

/-- Elsewhere everything stays where it is. -/
theorem origin_eq (h : e.Concerns t top names) (hplace : ¬ Under top names place) :
    e.origin place = .kept place := by
  have hne : ∀ {name : String}, name ∈ names → place ≠ top ++ [name] := by
    rintro name hname rfl
    exact hplace (under_of_mem hname)
  cases h with
  | nothing => rfl
  | add bytes hname => rw [origin, if_neg (hne hname)]
  | remove hname => rw [origin, if_neg (hne hname)]
  | move hsource htarget _ =>
    have hs := within_of_not_under hplace hsource
    have ht := within_of_not_under hplace htarget
    simp only [origin, hs, ht, Bool.false_eq_true, if_false]
  | rewrite => rfl

/-- Nothing comes to these names from elsewhere. -/
theorem under_of_origin (h : e.Concerns t top names) (hplace : Under top names place)
    {before : Place} (hbefore : e.origin place = .kept before) : Under top names before := by
  cases h with
  | nothing =>
    cases hbefore
    exact hplace
  | add bytes _ =>
    rw [origin] at hbefore
    split at hbefore
    · cases hbefore
    · cases hbefore
      exact hplace
  | remove _ =>
    rw [origin] at hbefore
    split at hbefore
    · cases hbefore
    · cases hbefore
      exact hplace
  | move hsource _ _ =>
    rw [origin] at hbefore
    split at hbefore
    · cases hbefore
      exact ⟨_, hsource, _, rfl⟩
    · split at hbefore
      · cases hbefore
      · cases hbefore
        exact hplace
  | rewrite =>
    cases hbefore
    exact hplace

theorem entryAt_on (h : e.Concerns t top names) (place : Place) :
    (e.on t).entryAt place = (e.origin place).entryIn t := by
  have hne : ∀ name : String, top ++ [name] ≠ [] :=
    fun name => List.append_ne_nil_of_right_ne_nil _ (List.cons_ne_nil name [])
  cases h with
  | nothing => rfl
  | rewrite => rfl
  | @add name bytes _ =>
    rw [on, addObject, entryAt_setEntry _ (hne name), origin]
    split
    · rfl
    · rfl
  | @remove name _ =>
    rw [on, entryAt_removeEntry _ (hne name), origin]
    split
    · rfl
    · rfl
  | @move source target _ _ hnames =>
    have hlen : (top ++ [source]).length = (top ++ [target]).length := by simp
    have hplaces : top ++ [source] ≠ top ++ [target] := by simpa using hnames
    rw [on, origin]
    split
    · next htarget =>
      obtain ⟨rest, rfl⟩ := within_iff.mp htarget
      rw [t.entryAt_move_target hlen hplaces, List.drop_left]
      rfl
    · next htarget =>
      split
      · next hsource =>
        obtain ⟨rest, rfl⟩ := within_iff.mp hsource
        exact t.entryAt_move_source hlen hplaces rest
      · next hsource =>
        rw [Bool.not_eq_true] at hsource htarget
        exact t.entryAt_move_other hsource htarget

theorem view_on (h : e.Concerns t top names) (place : Place) :
    (e.on t).view place = (e.origin place).viewIn t e.revise := by
  have hentry := h.entryAt_on place
  cases h with
  | nothing => exact view_eq_viewIn rfl (fun bytes => Origin.noConfusion) hentry
  | rewrite bytes _ hview => exact view_setContent ⟨_, contentOf_of_view hview⟩ bytes place
  | @add name bytes _ =>
    have hne : top ++ [name] ≠ [] :=
      List.append_ne_nil_of_right_ne_nil _ (List.cons_ne_nil name [])
    rw [on, view_addObject t hne, origin]
    split
    · rfl
    · exact (congrFun Option.map_id _).symm
  | remove _ =>
    refine view_eq_viewIn rfl (fun bytes => ?_) hentry
    rw [origin]
    split
    · simp
    · simp
  | move _ _ _ =>
    refine view_eq_viewIn rfl (fun bytes => ?_) hentry
    rw [origin]
    split
    · simp
    · split
      · simp
      · simp

/-- Things are names of one object afterwards if they were it before, or are one new file. -/
theorem shares_on (h : e.Concerns t top names) (p q : Place) :
    (e.on t).Shares p q ↔ (e.origin p).SharesIn t (e.origin q) := by
  rw [Shares, h.entryAt_on, h.entryAt_on]
  cases e.origin p with
  | nothing => simp [Origin.entryIn, Origin.SharesIn]
  | kept before =>
    cases e.origin q with
    | nothing => simp [Origin.entryIn, Origin.SharesIn]
    | kept other => rfl
    | made bytes => simp [Origin.entryIn, Origin.SharesIn, t.entryAt_ne_freshNumber before]
  | made bytes =>
    cases e.origin q with
    | nothing => simp [Origin.entryIn, Origin.SharesIn]
    | kept other => simp [Origin.entryIn, Origin.SharesIn, t.entryAt_ne_freshNumber other]
    | made more => simp [Origin.entryIn, Origin.SharesIn]

/-- An effect revises nothing, or the file that one of its names stands for. -/
theorem revise_eq (h : e.Concerns t top names) :
    (∀ seen, e.revise seen = seen) ∨ ∃ name ∈ names, ∃ number bytes,
      t.entryAt (top ++ [name]) = some (.object number) ∧
      ∀ seen, e.revise seen = seen.rewritten number bytes := by
  cases h with
  | nothing => exact Or.inl fun _ => rfl
  | add _ _ => exact Or.inl fun _ => rfl
  | remove _ => exact Or.inl fun _ => rfl
  | move _ _ _ => exact Or.inl fun _ => rfl
  | rewrite bytes hname hview =>
    exact Or.inr ⟨_, hname, _, bytes, entryAt_of_view hview, fun _ => rfl⟩

/-- A new file is not revised. -/
theorem revise_fresh (h : e.Concerns t top names) (bytes : Bytes) :
    e.revise (.file t.freshNumber bytes) = .file t.freshNumber bytes := by
  rcases h.revise_eq with hsame | ⟨name, -, number, other, hentry, hrewritten⟩
  · exact hsame _
  · have hne : t.freshNumber ≠ number := by
      rintro rfl
      exact t.entryAt_ne_freshNumber _ hentry
    rw [hrewritten, View.rewritten, if_neg hne]

/-- What is revised at names that are apart is another object. -/
theorem revise_comm (h : e.Concerns t top names) (h' : e'.Concerns t top others)
    (hapart : t.Apart top names others) (seen : View) :
    e'.revise (e.revise seen) = e.revise (e'.revise seen) := by
  rcases h.revise_eq with hsame | ⟨name, hname, m, bytes, hentry, hrewritten⟩
  · rw [hsame, hsame]
  · rcases h'.revise_eq with hsame | ⟨other, hother, n, more, hentry', hrewritten'⟩
    · rw [hsame, hsame]
    · have hne : m ≠ n := by
        rintro rfl
        exact hapart.not_shares name hname other hother ⟨m, hentry, hentry'⟩
      rw [hrewritten, hrewritten', hrewritten, hrewritten']
      cases seen with
      | directory => rfl
      | link number target => rfl
      | file number held =>
        simp only [View.rewritten, View.file.injEq, true_and]
        by_cases hm : number = m
        · have hn : number ≠ n := hm ▸ hne
          simp only [if_pos hm, if_neg hn]
        · simp only [if_neg hm]

/-- Names that are apart from those that an effect concerns show what they have shown. -/
theorem sameAt_on (h : e.Concerns t top names) (hapart : t.Apart top names others)
    {other : String} (hother : other ∈ others) : t.SameAt (e.on t) (top ++ [other]) where
  entryAt_eq := by
    intro rest
    have hplace : Under top others (top ++ [other] ++ rest) := ⟨other, hother, rest, rfl⟩
    rw [h.entryAt_on, h.origin_eq (hapart.symm.not_under hplace), Origin.entryIn]
  view_eq := by
    have hplace : ¬ Under top names (top ++ [other]) := hapart.symm.not_under (under_of_mem hother)
    rw [h.view_on, h.origin_eq hplace, Origin.viewIn]
    rcases h.revise_eq with hsame | ⟨name, hname, number, bytes, hentry, hrewritten⟩
    · rw [funext hsame]
      exact congrFun Option.map_id _
    · cases hview : t.view (top ++ [other]) with
      | none => rfl
      | some seen =>
        rw [Option.map_some, hrewritten]
        cases seen with
        | directory => rfl
        | link n target => rfl
        | file n held =>
          have hne : n ≠ number := by
            rintro rfl
            exact hapart.not_shares name hname other hother ⟨n, hentry, entryAt_of_view hview⟩
          rw [View.rewritten, if_neg hne]

/-- An effect concerns the same names after another one on names that are apart. -/
theorem concerns_on (h : e.Concerns t top names) (h' : e'.Concerns t top others)
    (hapart : t.Apart top names others) : e'.Concerns (e.on t) top others := by
  cases h' with
  | nothing => exact .nothing
  | add bytes hother => exact .add bytes hother
  | remove hother => exact .remove hother
  | move hsource htarget hne => exact .move hsource htarget hne
  | rewrite bytes hother hview =>
    exact .rewrite bytes hother ((h.sameAt_on hapart hother).view_eq.trans hview)

theorem not_under_of_origin (h : e.Concerns t top names) (hapart : t.Apart top names others)
    (hplace : ¬ Under top others place) {before : Place}
    (horigin : e.origin place = .kept before) : ¬ Under top others before := by
  by_cases hunder : Under top names place
  · exact hapart.not_under (h.under_of_origin hunder horigin)
  · rw [h.origin_eq hunder] at horigin
    cases horigin
    exact hplace

/-- Where the second of two effects moves nothing, what is seen does not depend on their order. -/
theorem sight_on_on (h : e.Concerns t top names) (h' : e'.Concerns t top others)
    (hapart : t.Apart top names others) (hplace : ¬ Under top others place) :
    (e'.on (e.on t)).sight place = (e.on (e'.on t)).sight place := by
  have hlater := h.concerns_on h' hapart
  have hearlier := h'.concerns_on h hapart.symm
  rw [sight, sight, hlater.view_on, hlater.origin_eq hplace, Origin.viewIn, h.view_on,
    hearlier.view_on]
  cases horigin : e.origin place with
  | nothing => rfl
  | made bytes =>
    simp only [Origin.viewIn, Option.map_some, h'.revise_fresh]
    rfl
  | kept before =>
    have hbefore := h.not_under_of_origin hapart hplace horigin
    rw [Origin.viewIn, Origin.viewIn, h'.view_on, h'.origin_eq hbefore, Origin.viewIn]
    cases t.view before with
    | none => rfl
    | some seen => simp only [Option.map_some, h.revise_comm h' hapart seen]

theorem shares_on_on {p q : Place} (h : e.Concerns t top names) (h' : e'.Concerns t top others)
    (hapart : t.Apart top names others) (hp : ¬ Under top others p) (hq : ¬ Under top others q) :
    (e'.on (e.on t)).Shares p q ↔ (e.on (e'.on t)).Shares p q := by
  have hlater := h.concerns_on h' hapart
  have hearlier := h'.concerns_on h hapart.symm
  rw [hlater.shares_on, hlater.origin_eq hp, hlater.origin_eq hq, Origin.SharesIn, h.shares_on,
    hearlier.shares_on]
  cases hfirst : e.origin p with
  | nothing => rfl
  | made bytes =>
    cases e.origin q with
    | nothing => rfl
    | made more => rfl
    | kept other => rfl
  | kept before =>
    cases hsecond : e.origin q with
    | nothing => rfl
    | made more => rfl
    | kept other =>
      have hbefore := h.not_under_of_origin hapart hp hfirst
      have hother := h.not_under_of_origin hapart hq hsecond
      rw [Origin.SharesIn, Origin.SharesIn, h'.shares_on, h'.origin_eq hbefore,
        h'.origin_eq hother, Origin.SharesIn]

/-- Something that one effect may have moved, and something that the other one may have. -/
theorem shares_on_on_across {p q : Place} (h : e.Concerns t top names)
    (h' : e'.Concerns t top others) (hapart : t.Apart top names others)
    (hp : ¬ Under top others p) (hq : ¬ Under top names q) :
    (e'.on (e.on t)).Shares p q ↔ (e.on (e'.on t)).Shares p q := by
  have hlater := h.concerns_on h' hapart
  have hearlier := h'.concerns_on h hapart.symm
  rw [hlater.shares_on, hlater.origin_eq hp, hearlier.shares_on, hearlier.origin_eq hq,
    Origin.sharesIn_kept_left, Origin.sharesIn_kept_right]
  constructor
  · rintro ⟨other, hsecond, hshares⟩
    have hother := h'.not_under_of_origin hapart.symm hq hsecond
    rw [h.shares_on, h.origin_eq hother, Origin.sharesIn_kept_right] at hshares
    obtain ⟨before, hfirst, hshares⟩ := hshares
    have hbefore := h.not_under_of_origin hapart hp hfirst
    refine ⟨before, hfirst, ?_⟩
    rw [h'.shares_on, h'.origin_eq hbefore, Origin.sharesIn_kept_left]
    exact ⟨other, hsecond, hshares⟩
  · rintro ⟨before, hfirst, hshares⟩
    have hbefore := h.not_under_of_origin hapart hp hfirst
    rw [h'.shares_on, h'.origin_eq hbefore, Origin.sharesIn_kept_left] at hshares
    obtain ⟨other, hsecond, hshares⟩ := hshares
    have hother := h'.not_under_of_origin hapart.symm hq hsecond
    refine ⟨other, hsecond, ?_⟩
    rw [h.shares_on, h.origin_eq hother, Origin.sharesIn_kept_right]
    exact ⟨before, hfirst, hshares⟩

/-- Effects on names that are apart can change places. -/
theorem alike_on_on (h : e.Concerns t top names) (h' : e'.Concerns t top others)
    (hapart : t.Apart top names others) : (e'.on (e.on t)).Alike (e.on (e'.on t)) where
  sight_eq := by
    intro place
    by_cases hplace : Under top others place
    · exact (h'.sight_on_on h hapart.symm (hapart.symm.not_under hplace)).symm
    · exact h.sight_on_on h' hapart hplace
  shares_iff := by
    intro p q
    by_cases hp : Under top others p
    · have hp := hapart.symm.not_under hp
      by_cases hq : Under top others q
      · exact (h'.shares_on_on h hapart.symm hp (hapart.symm.not_under hq)).symm
      · exact (h'.shares_on_on_across h hapart.symm hp hq).symm
    · by_cases hq : Under top others q
      · exact h.shares_on_on_across h' hapart hp (hapart.symm.not_under hq)
      · exact h.shares_on_on h' hapart hp hq

end Effect.Concerns

end FileShell.Tree
