import FileShell.Proofs.Suggestion.Table
import FileShell.Suggestion.Nearest

/-!
# Which candidate a word stands for

`IsFirstLeast` says which element of a list is the first one of least measure; it is the one that
`firstLeast` finds. `Suggests` says what a word stands for by the true distances of the candidates,
without a bound on them. Main statement: `best_eq_iff`, this is what is suggested. So it makes no
difference that distances above the bound are not found exactly.
-/

namespace FileShell.Suggestion

open Text

section FirstLeast

variable {α : Type} {measure : α → Nat} {xs : List α} {x : α}

/-- The first element of a list among those of least measure. -/
def IsFirstLeast (measure : α → Nat) (xs : List α) (x : α) : Prop :=
  ∃ before after, xs = before ++ x :: after ∧ (∀ y ∈ before, measure x < measure y) ∧
    ∀ y ∈ after, measure x ≤ measure y

theorem IsFirstLeast.mem (h : IsFirstLeast measure xs x) : x ∈ xs := by
  obtain ⟨before, after, rfl, -, -⟩ := h
  simp

theorem IsFirstLeast.le (h : IsFirstLeast measure xs x) {y : α} (hy : y ∈ xs) :
    measure x ≤ measure y := by
  obtain ⟨before, after, rfl, hbefore, hafter⟩ := h
  rcases List.mem_append.mp hy with hy | hy
  · exact Nat.le_of_lt (hbefore y hy)
  · rcases List.mem_cons.mp hy with rfl | hy
    · exact Nat.le_refl _
    · exact hafter y hy

/-- With other elements left out the first one of least measure stays what it is. -/
theorem IsFirstLeast.filter (h : IsFirstLeast measure xs x) {p : α → Bool} (hx : p x = true) :
    IsFirstLeast measure (xs.filter p) x := by
  obtain ⟨before, after, rfl, hbefore, hafter⟩ := h
  refine ⟨before.filter p, after.filter p, ?_, ?_, ?_⟩
  · rw [List.filter_append, List.filter_cons_of_pos hx]
  · exact fun y hy => hbefore y (List.mem_filter.mp hy).1
  · exact fun y hy => hafter y (List.mem_filter.mp hy).1

/-- Either the first element is the one, or it has more than the one behind it. -/
theorem isFirstLeast_cons_iff {y : α} :
    IsFirstLeast measure (y :: xs) x ↔
      (x = y ∧ ∀ z ∈ xs, measure y ≤ measure z) ∨
      (measure x < measure y ∧ IsFirstLeast measure xs x) := by
  constructor
  · rintro ⟨before, after, heq, hbefore, hafter⟩
    cases before with
    | nil =>
      obtain ⟨rfl, rfl⟩ := List.cons.inj heq
      exact Or.inl ⟨rfl, hafter⟩
    | cons z before =>
      obtain ⟨rfl, rfl⟩ := List.cons.inj heq
      exact Or.inr ⟨hbefore y List.mem_cons_self, before, after, rfl,
        fun z hz => hbefore z (List.mem_cons_of_mem _ hz), hafter⟩
  · rintro (⟨rfl, hafter⟩ | ⟨hlt, before, after, rfl, hbefore, hafter⟩)
    · exact ⟨[], xs, rfl, by simp, hafter⟩
    · refine ⟨y :: before, after, rfl, ?_, hafter⟩
      intro z hz
      rcases List.mem_cons.mp hz with rfl | hz
      · exact hlt
      · exact hbefore z hz

theorem firstLeast_eq_none_iff : firstLeast measure xs = none ↔ xs = [] := by
  cases xs with
  | nil => simp [firstLeast]
  | cons y xs =>
    rw [firstLeast]
    cases firstLeast measure xs with
    | none => simp
    | some z =>
      dsimp only
      split <;> simp

theorem firstLeast_eq_some_iff :
    firstLeast measure xs = some x ↔ IsFirstLeast measure xs x := by
  induction xs generalizing x with
  | nil => simp [firstLeast, IsFirstLeast]
  | cons y xs ih =>
    rw [isFirstLeast_cons_iff, firstLeast]
    cases hrest : firstLeast measure xs with
    | none =>
      have hnil : xs = [] := firstLeast_eq_none_iff.mp hrest
      subst hnil
      simp [IsFirstLeast, eq_comm]
    | some z =>
      have hz : IsFirstLeast measure xs z := ih.mp hrest
      have hone : IsFirstLeast measure xs x ↔ z = x := by
        rw [← ih, hrest, Option.some.injEq]
      have hleast : (∀ w ∈ xs, measure y ≤ measure w) ↔ measure y ≤ measure z :=
        ⟨fun h => h z hz.mem, fun h w hw => Nat.le_trans h (hz.le hw)⟩
      rw [hleast, hone]
      dsimp only
      split
      · next hle =>
        rw [Option.some.injEq]
        constructor
        · rintro rfl
          exact Or.inl ⟨rfl, hle⟩
        · rintro (⟨rfl, -⟩ | ⟨hlt, rfl⟩)
          · rfl
          · omega
      · next hgt =>
        rw [Option.some.injEq]
        constructor
        · rintro rfl
          exact Or.inr ⟨Nat.lt_of_not_le hgt, rfl⟩
        · rintro (⟨-, hle⟩ | ⟨-, rfl⟩)
          · exact absurd hle hgt
          · rfl

theorem firstLeast_congr {other : α → Nat} (h : ∀ y ∈ xs, measure y = other y) :
    firstLeast measure xs = firstLeast other xs := by
  induction xs with
  | nil => rfl
  | cons y xs ih =>
    have hrest := ih fun z hz => h z (List.mem_cons_of_mem _ hz)
    rw [firstLeast, firstLeast, hrest]
    cases hfound : firstLeast other xs with
    | none => rfl
    | some z =>
      have hz : z ∈ xs := (firstLeast_eq_some_iff.mp hfound).mem
      simp only [h y List.mem_cons_self, h z (List.mem_cons_of_mem _ hz)]

theorem exists_isFirstLeast (measure : α → Nat) (h : xs ≠ []) :
    ∃ x, IsFirstLeast measure xs x := by
  have hsome : firstLeast measure xs ≠ none := fun hnone => h (firstLeast_eq_none_iff.mp hnone)
  obtain ⟨x, hx⟩ := Option.ne_none_iff_exists'.mp hsome
  exact ⟨x, firstLeast_eq_some_iff.mp hx⟩

end FirstLeast

/-- The number of edits that lead from a word to a candidate, however many they are. -/
def distance (word candidate : String) : Nat :=
  levenshtein word.toList candidate.toList

variable {word : String} {candidates : List String}

/-- What a word stands for. -/
inductive Suggests (word : String) (candidates : List String) : Option String → Prop
  | untyped : word = "" → Suggests word candidates none
  /-- Candidates that the word begins come first, and the shortest of them wins. -/
  | unfinished {c : String} : word ≠ "" →
      IsFirstLeast (fun c => byteLength c.toList)
        (candidates.filter fun c => word.toList <+: c.toList) c →
      Suggests word candidates (some c)
  /-- If there are none, the nearest candidate wins, if it is near enough. -/
  | mistyped {c : String} : word ≠ "" → (∀ c ∈ candidates, ¬ word.toList <+: c.toList) →
      IsFirstLeast (distance word)
        (candidates.filter fun c => c ≠ "" ∧ distance word c ≤ 2) c →
      Suggests word candidates (some c)
  | strange : word ≠ "" → (∀ c ∈ candidates, ¬ word.toList <+: c.toList) →
      (∀ c ∈ candidates, c ≠ "" → 2 < distance word c) → Suggests word candidates none

theorem begins_iff {candidate : String} :
    begins word candidate = true ↔ word.toList <+: candidate.toList := by
  rw [begins, List.isPrefixOf_iff_prefix]

/-- The bound on the edits does not change which candidate is the nearest. -/
theorem best_of_ne (hword : word ≠ "") (candidates : List String) :
    best word candidates =
      (firstLeast (fun c => byteLength c.toList)
        (candidates.filter fun c => word.toList <+: c.toList)).or
      (firstLeast (distance word) (candidates.filter fun c => c ≠ "" ∧ distance word c ≤ 2)) := by
  have hbegun : candidates.filter (begins word) =
      candidates.filter fun c => word.toList <+: c.toList := by
    apply List.filter_congr
    intro c _
    rw [Bool.eq_iff_iff, begins_iff, decide_eq_true_iff]
  have hnear : (candidates.filter fun c => decide (c ≠ "") && decide (edits word c ≤ reach)) =
      candidates.filter fun c => c ≠ "" ∧ distance word c ≤ 2 := by
    apply List.filter_congr
    intro c _
    rw [Bool.decide_and, edits, decide_eq_decide.mpr boundedDistance_le_iff]
    rfl
  have hedits : firstLeast (edits word)
        (candidates.filter fun c => c ≠ "" ∧ distance word c ≤ 2) =
      firstLeast (distance word)
        (candidates.filter fun c => c ≠ "" ∧ distance word c ≤ 2) := by
    apply firstLeast_congr
    intro c hc
    have hle : distance word c ≤ 2 := (of_decide_eq_true (List.mem_filter.mp hc).2).2
    exact boundedDistance_eq_of_le hle
  rw [best, if_neg hword, hbegun, hnear, hedits]
  cases firstLeast (fun c => byteLength c.toList)
    (candidates.filter fun c => word.toList <+: c.toList) with
  | none => rfl
  | some c => rfl

theorem suggests_best (word : String) (candidates : List String) :
    Suggests word candidates (best word candidates) := by
  by_cases hword : word = ""
  · rw [best, if_pos hword]
    exact .untyped hword
  · rw [best_of_ne hword]
    cases hbegun : firstLeast (fun c => byteLength c.toList)
        (candidates.filter fun c => word.toList <+: c.toList) with
    | some c => exact .unfinished hword (firstLeast_eq_some_iff.mp hbegun)
    | none =>
      have hnone : ∀ c ∈ candidates, ¬ word.toList <+: c.toList := by
        simpa using List.filter_eq_nil_iff.mp (firstLeast_eq_none_iff.mp hbegun)
      rw [Option.none_or]
      cases hnear : firstLeast (distance word)
          (candidates.filter fun c => c ≠ "" ∧ distance word c ≤ 2) with
      | some c => exact .mistyped hword hnone (firstLeast_eq_some_iff.mp hnear)
      | none =>
        refine .strange hword hnone ?_
        simpa using List.filter_eq_nil_iff.mp (firstLeast_eq_none_iff.mp hnear)

/-- A word stands for one candidate at most. -/
theorem Suggests.best_eq {answer : Option String} (h : Suggests word candidates answer) :
    best word candidates = answer := by
  have hnil : (∀ c ∈ candidates, ¬ word.toList <+: c.toList) →
      (candidates.filter fun c => word.toList <+: c.toList) = [] := by
    intro hnone
    simpa [List.filter_eq_nil_iff] using hnone
  cases h with
  | untyped hword => rw [best, if_pos hword]
  | unfinished hword hleast =>
    rw [best_of_ne hword, firstLeast_eq_some_iff.mpr hleast, Option.some_or]
  | mistyped hword hnone hleast =>
    rw [best_of_ne hword, firstLeast_eq_none_iff.mpr (hnil hnone), Option.none_or,
      firstLeast_eq_some_iff.mpr hleast]
  | strange hword hnone hfar =>
    have hfar' : (candidates.filter fun c => c ≠ "" ∧ distance word c ≤ 2) = [] := by
      simpa [List.filter_eq_nil_iff] using hfar
    rw [best_of_ne hword, firstLeast_eq_none_iff.mpr (hnil hnone), Option.none_or,
      firstLeast_eq_none_iff.mpr hfar']

/-- A candidate that the word begins is the word itself if it has no more bytes. -/
theorem eq_of_begins_of_byteLength_le {candidate : String}
    (h : word.toList <+: candidate.toList)
    (hle : byteLength candidate.toList ≤ byteLength word.toList) : candidate = word := by
  obtain ⟨rest, hrest⟩ := h
  have hlen := congrArg byteLength hrest
  rw [byteLength_append] at hlen
  have hnil : rest = [] := byteLength_eq_zero (by omega)
  rw [hnil, List.append_nil] at hrest
  exact (String.toList_injective hrest).symm

theorem best_of_mem (hword : word ≠ "") (hmem : word ∈ candidates) :
    best word candidates = some word := by
  have hself : word ∈ candidates.filter fun c => word.toList <+: c.toList :=
    List.mem_filter.mpr ⟨hmem, by simp⟩
  obtain ⟨c, hc⟩ := exists_isFirstLeast (fun c : String => byteLength c.toList)
    (List.ne_nil_of_mem hself)
  have hbegun : word.toList <+: c.toList := of_decide_eq_true (List.mem_filter.mp hc.mem).2
  have heq : c = word := eq_of_begins_of_byteLength_le hbegun (hc.le hself)
  rw [heq] at hc
  exact (Suggests.unfinished hword hc).best_eq

/-- A word that begins no candidate stands for the nearest one, or for nothing if even that one is
too far away. -/
theorem best_of_nearest {c : String} (hword : word ≠ "") (hempty : "" ∉ candidates)
    (hnone : ∀ c ∈ candidates, ¬ word.toList <+: c.toList)
    (h : IsFirstLeast (distance word) candidates c) :
    best word candidates = if distance word c ≤ 2 then some c else none := by
  split
  · next hle =>
    have hne : c ≠ "" := ne_of_mem_of_not_mem h.mem hempty
    exact (Suggests.mistyped hword hnone (h.filter (decide_eq_true ⟨hne, hle⟩))).best_eq
  · next hgt =>
    refine (Suggests.strange hword hnone fun other hother _ => ?_).best_eq
    have hle := h.le hother
    omega

/-- What is suggested for a word is what it stands for: nothing for the empty word; otherwise, of
the candidates that the word begins, the first one of least byte length; if there are none, the
first one of least distance among those that are not empty and at most two edits away; and nothing
if there are none of these either. In particular a candidate stands for itself. -/
theorem best_eq_iff (word : String) (candidates : List String) :
    (∀ answer, best word candidates = answer ↔ Suggests word candidates answer) ∧
    (word ≠ "" → word ∈ candidates → best word candidates = some word) := by
  refine ⟨?_, best_of_mem⟩
  intro answer
  constructor
  · rintro rfl
    exact suggests_best word candidates
  · exact Suggests.best_eq

/-- Of two candidates one edit away the first one is meant, and what comes before a candidate that
is the word itself does not matter, even if the word begins it. -/
theorem best_eq_iff_typed :
    Suggests "cxpy" ["exit", "copy", "coopy", "capy"] (some "copy") ∧
      best "copy" ["copying", "cop", "copy"] = some "copy" := by
  have hnear : best "cxpy" ["exit", "copy", "coopy", "capy"] = some "copy" := by decide +kernel
  exact ⟨((best_eq_iff _ _).1 _).mp hnear, (best_eq_iff _ _).2 (by decide) (by decide)⟩

end FileShell.Suggestion
