import Mathlib.Data.List.TakeWhile
import FileShell.Text.Blank

/-!
# Blanks at the ends of a text

`StandsIn` says without trimming which part of a text stands between its blanks, and
`trimChars_eq_iff` that trimming finds that part. A character that is not blank is kept, with what
stands between it and the ends trimmed for itself (`trimChars_append_cons`).
-/

namespace FileShell.Text

/-- There is nothing but blanks. -/
def AllBlank (cs : List Char) : Prop :=
  ∀ c ∈ cs, isBlank c = true

instance (cs : List Char) : Decidable (AllBlank cs) :=
  List.decidableBAll (fun c => isBlank c = true) cs

/-- There is no blank at either end. -/
structure Tight (cs : List Char) : Prop where
  head : ∀ c, cs.head? = some c → isBlank c = false
  last : ∀ c, cs.getLast? = some c → isBlank c = false

theorem tight_iff {cs : List Char} : Tight cs ↔
    (cs.head?.all fun c => !isBlank c) = true ∧ (cs.getLast?.all fun c => !isBlank c) = true := by
  simp only [Option.all_eq_true, Bool.not_eq_true']
  exact ⟨fun h => ⟨h.head, h.last⟩, fun h => ⟨h.1, h.2⟩⟩

instance (cs : List Char) : Decidable (Tight cs) :=
  decidable_of_iff _ tight_iff.symm

/-- `kept` stands in the characters with nothing but blanks around it, and with none of them at its
own ends. -/
def StandsIn (kept cs : List Char) : Prop :=
  Tight kept ∧ ∃ front back, AllBlank front ∧ AllBlank back ∧ cs = front ++ kept ++ back

variable {p : Char → Bool} {cs kept front back : List Char}

theorem AllBlank.append (hfront : AllBlank front) (hback : AllBlank back) :
    AllBlank (front ++ back) := by
  intro c hc
  rcases List.mem_append.mp hc with hc | hc
  · exact hfront c hc
  · exact hback c hc

/-- A list is what is left when its end has been dropped, with that end. -/
theorem dropEndWhile_append_end (cs : List Char) :
    ∃ dropped, cs = dropEndWhile p cs ++ dropped ∧ ∀ c ∈ dropped, p c = true := by
  refine ⟨(cs.reverse.takeWhile p).reverse, ?_, ?_⟩
  · rw [dropEndWhile, ← List.reverse_append, List.takeWhile_append_dropWhile, List.reverse_reverse]
  · intro c hc
    exact List.mem_takeWhile_imp (List.mem_reverse.mp hc)

/-- What is left ends with a character that is kept. -/
theorem eq_false_of_getLast?_dropEndWhile {c : Char}
    (h : (dropEndWhile p cs).getLast? = some c) : p c = false := by
  rw [dropEndWhile, List.getLast?_reverse] at h
  have hhead := List.head?_dropWhile_not p cs.reverse
  rwa [h] at hhead

/-- Blanks at the end make no difference to a trimmed text. -/
theorem trimChars_append_of_blank (h : AllBlank back) (kept : List Char) :
    trimChars (kept ++ back) = trimChars kept := by
  have hend : ∀ xs, dropEndWhile isBlank (xs ++ back) = dropEndWhile isBlank xs := by
    intro xs
    rw [dropEndWhile, dropEndWhile, List.reverse_append,
      List.dropWhile_append_of_pos (fun c hc => h c (List.mem_reverse.mp hc))]
  rw [trimChars, trimChars, List.dropWhile_append]
  split
  · next hempty =>
    have hnone : back.dropWhile isBlank = [] := List.dropWhile_eq_nil_iff.mpr h
    rw [List.isEmpty_iff.mp hempty, hnone]
  · exact hend _

/-- Nor do blanks in front of it. -/
theorem trimChars_blank_append (h : AllBlank front) (kept : List Char) :
    trimChars (front ++ kept) = trimChars kept := by
  rw [trimChars, trimChars, List.dropWhile_append_of_pos h]

/-- What is dropped at the end does not matter if blanks are dropped there anyway. -/
theorem trimChars_dropEndWhile (h : ∀ c, p c = true → isBlank c = true) (cs : List Char) :
    trimChars (dropEndWhile p cs) = trimChars cs := by
  obtain ⟨dropped, hcs, hdropped⟩ := dropEndWhile_append_end (p := p) cs
  have htrim := trimChars_append_of_blank (fun c hc => h c (hdropped c hc)) (dropEndWhile p cs)
  rw [← hcs] at htrim
  exact htrim.symm

theorem dropWhile_eq_self_of_head? (h : ∀ c, cs.head? = some c → p c = false) :
    cs.dropWhile p = cs := by
  cases cs with
  | nil => rfl
  | cons c cs => rw [List.dropWhile_cons, if_neg (by simp [h c rfl])]

/-- Exactly the end is dropped if what is before it ends with a character that is kept. -/
theorem dropEndWhile_append (hback : ∀ c ∈ back, p c = true)
    (hkept : ∀ c, kept.getLast? = some c → p c = false) :
    dropEndWhile p (kept ++ back) = kept := by
  rw [dropEndWhile, List.reverse_append,
    List.dropWhile_append_of_pos fun c hc => hback c (List.mem_reverse.mp hc),
    dropWhile_eq_self_of_head?, List.reverse_reverse]
  intro c hc
  rw [List.head?_reverse] at hc
  exact hkept c hc

theorem Tight.trimChars_eq (h : Tight cs) : trimChars cs = cs := by
  rw [trimChars, dropWhile_eq_self_of_head? h.head, dropEndWhile, dropWhile_eq_self_of_head?,
    List.reverse_reverse]
  intro c hc
  rw [List.head?_reverse] at hc
  exact h.last c hc

/-- Trimming leaves nothing blank at the ends. -/
theorem tight_trimChars (cs : List Char) : Tight (trimChars cs) := by
  constructor
  · -- The first character is kept when the end is dropped, or nothing is.
    intro c hc
    obtain ⟨dropped, hdrop, -⟩ := dropEndWhile_append_end (p := isBlank) (cs.dropWhile isBlank)
    have hfirst : (cs.dropWhile isBlank).head? = some c := by
      rw [hdrop, List.head?_append]
      exact Option.or_eq_some_iff.mpr (Or.inl hc)
    have hhead := List.head?_dropWhile_not isBlank cs
    rwa [hfirst] at hhead
  · intro c hc
    exact eq_false_of_getLast?_dropEndWhile hc

/-- A text is its trimmed text between blanks. -/
theorem exists_trimChars_between (cs : List Char) :
    ∃ front back, AllBlank front ∧ AllBlank back ∧ cs = front ++ trimChars cs ++ back := by
  obtain ⟨back, hback, hblank⟩ := dropEndWhile_append_end (p := isBlank) (cs.dropWhile isBlank)
  refine ⟨cs.takeWhile isBlank, back, fun c hc => List.mem_takeWhile_imp hc, hblank, ?_⟩
  rw [trimChars, List.append_assoc, ← hback, List.takeWhile_append_dropWhile]

theorem trimChars_eq_iff : trimChars cs = kept ↔ StandsIn kept cs := by
  constructor
  · rintro rfl
    exact ⟨tight_trimChars cs, exists_trimChars_between cs⟩
  · rintro ⟨htight, front, back, hfront, hback, rfl⟩
    rw [trimChars_append_of_blank hback, trimChars_blank_append hfront, htight.trimChars_eq]

theorem trimChars_eq_nil_iff : trimChars cs = [] ↔ AllBlank cs := by
  constructor
  · intro h
    obtain ⟨front, back, hfront, hback, hcs⟩ := exists_trimChars_between cs
    rw [hcs, h, List.append_nil]
    exact hfront.append hback
  · intro h
    have htrim := trimChars_blank_append h []
    rw [List.append_nil] at htrim
    exact htrim

section NotBlank

variable {c : Char}

theorem dropWhile_append_cons (h : p c = false) (before after : List Char) :
    (before ++ c :: after).dropWhile p = before.dropWhile p ++ c :: after := by
  have hself : (c :: after).dropWhile p = c :: after :=
    dropWhile_eq_self_of_head? fun d hd => Option.some.inj hd ▸ h
  rw [List.dropWhile_append]
  split
  · next hempty => rw [hself, List.isEmpty_iff.mp hempty, List.nil_append]
  · rfl

theorem trimChars_append_cons (h : isBlank c = false) (before after : List Char) :
    trimChars (before ++ c :: after) =
      before.dropWhile isBlank ++ c :: dropEndWhile isBlank after := by
  rw [trimChars, dropWhile_append_cons h, dropEndWhile, List.reverse_append, List.reverse_cons,
    List.append_assoc, List.singleton_append, dropWhile_append_cons h]
  simp [dropEndWhile]

theorem trimChars_dropWhile (cs : List Char) :
    trimChars (cs.dropWhile isBlank) = trimChars cs := by
  have hblank : AllBlank (cs.takeWhile isBlank) := fun c hc => List.mem_takeWhile_imp hc
  have htrim := trimChars_blank_append hblank (cs.dropWhile isBlank)
  rw [List.takeWhile_append_dropWhile] at htrim
  exact htrim.symm

end NotBlank

end FileShell.Text
