import FileShell.Token.Scan
import Mathlib.Data.List.TakeWhile

/-!
# The form of words

`IsWord` says which characters make up a word, and `Continues` says when the characters after a
word would belong to it as well. `splitWord` takes a word off the front of the characters that
its rest does not continue, and there is only one such word (`splitWord_append_eq`).
-/

namespace FileShell.Token

open Text

/-- A run of word characters. -/
def IsRun (cs : List Char) : Prop :=
  cs ≠ [] ∧ ∀ c ∈ cs, isWordChar c = true

/-- The characters of a word: a run, or two runs with a dot between them. -/
inductive IsWord : List Char → Prop
  | run {xs : List Char} : IsRun xs → IsWord xs
  | dotted {xs ys : List Char} : IsRun xs → IsRun ys → IsWord (xs ++ '.' :: ys)

/-- Whether the first character is a word character. -/
def StartsWord (cs : List Char) : Prop :=
  ∃ c rest, cs = c :: rest ∧ isWordChar c = true

/-- Whether the characters after a word carry it on: with a word character or, as long as the
word has no dot, with a dot and a word character. -/
def Continues (word rest : List Char) : Prop :=
  StartsWord rest ∨ '.' ∉ word ∧ ∃ tail, rest = '.' :: tail ∧ StartsWord tail

theorem isWordChar_dot : isWordChar '.' = false := by decide

theorem IsRun.dot_notMem {xs : List Char} (h : IsRun xs) : '.' ∉ xs := by
  intro hmem
  have hdot := h.2 '.' hmem
  rw [isWordChar_dot] at hdot
  cases hdot

theorem IsRun.startsWord {xs : List Char} (h : IsRun xs) : StartsWord xs := by
  obtain ⟨hne, hall⟩ := h
  cases xs with
  | nil => exact absurd rfl hne
  | cons c xs => exact ⟨c, xs, rfl, hall c (by simp)⟩

theorem StartsWord.append {xs : List Char} (h : StartsWord xs) (ys : List Char) :
    StartsWord (xs ++ ys) := by
  obtain ⟨c, rest, rfl, hc⟩ := h
  exact ⟨c, rest ++ ys, rfl, hc⟩

theorem IsWord.startsWord {xs : List Char} (h : IsWord xs) : StartsWord xs := by
  cases h with
  | run hx => exact hx.startsWord
  | dotted hx _ => exact hx.startsWord.append _

theorem not_startsWord_dropWhile (cs : List Char) : ¬ StartsWord (cs.dropWhile isWordChar) := by
  rintro ⟨c, rest, hrest, hc⟩
  have hne : cs.dropWhile isWordChar ≠ [] := by rw [hrest]; simp
  have hhead := List.head_dropWhile_not isWordChar hne
  simp only [hrest, List.head_cons] at hhead
  rw [hc] at hhead
  cases hhead

theorem StartsWord.isRun_takeWhile {cs : List Char} (h : StartsWord cs) :
    IsRun (cs.takeWhile isWordChar) := by
  obtain ⟨c, rest, rfl, hc⟩ := h
  refine ⟨by simp [hc], ?_⟩
  intro d hd
  exact List.mem_takeWhile_imp hd

theorem IsRun.takeWhile_append {xs rest : List Char} (h : IsRun xs) (hrest : ¬ StartsWord rest) :
    (xs ++ rest).takeWhile isWordChar = xs := by
  rw [List.takeWhile_append_of_pos h.2]
  cases rest with
  | nil => simp
  | cons c rest =>
    have hc : ¬ isWordChar c = true := fun hc => hrest ⟨c, rest, rfl, hc⟩
    rw [List.takeWhile_cons_of_neg hc, List.append_nil]

theorem IsRun.dropWhile_append {xs rest : List Char} (h : IsRun xs) (hrest : ¬ StartsWord rest) :
    (xs ++ rest).dropWhile isWordChar = rest := by
  rw [List.dropWhile_append_of_pos h.2]
  cases rest with
  | nil => rfl
  | cons c rest =>
    have hc : ¬ isWordChar c = true := fun hc => hrest ⟨c, rest, rfl, hc⟩
    rw [List.dropWhile_cons_of_neg hc]

/-- A word that the characters behind it do not continue is continued with more of them only if they
go as far as the dot that could join a second run. -/
theorem Continues.of_append {word rest more : List Char} (h : Continues word (rest ++ more))
    (hrest : ¬ Continues word rest) : rest = [] ∨ rest = ['.'] := by
  cases rest with
  | nil => exact Or.inl rfl
  | cons c rest =>
    rcases h with ⟨d, tail, heq, hd⟩ | ⟨hdot, tail, heq, hstart⟩
    · exact absurd (Or.inl ⟨c, rest, rfl, (List.cons.inj heq).1 ▸ hd⟩) hrest
    · obtain ⟨rfl, rfl⟩ := List.cons.inj heq
      cases rest with
      | nil => exact Or.inr rfl
      | cons d rest =>
        obtain ⟨e, tail, heq, he⟩ := hstart
        have hd : isWordChar d = true := (List.cons.inj heq).1 ▸ he
        exact absurd (Or.inr ⟨hdot, d :: rest, rfl, d, rest, rfl, hd⟩) hrest

/-- A run is split off whole when nothing continues it. -/
theorem splitWord_run {xs rest : List Char} (h : IsRun xs) (hrest : ¬ Continues xs rest) :
    splitWord (xs ++ rest) = (xs, rest) := by
  have hstart : ¬ StartsWord rest := fun hs => hrest (Or.inl hs)
  unfold splitWord
  rw [h.takeWhile_append hstart, h.dropWhile_append hstart]
  split
  · next c tail =>
    -- A word character behind the dot would continue the run.
    have hc : ¬ isWordChar c = true := fun hc =>
      hrest (Or.inr ⟨h.dot_notMem, c :: tail, rfl, c, tail, rfl, hc⟩)
    rw [if_neg hc]
  · rfl

/-- Two runs with a dot between them are split off whole when no word character follows. -/
theorem splitWord_dotted {xs ys rest : List Char} (hx : IsRun xs) (hy : IsRun ys)
    (hrest : ¬ StartsWord rest) :
    splitWord ((xs ++ '.' :: ys) ++ rest) = (xs ++ '.' :: ys, rest) := by
  have hdot : ¬ StartsWord ('.' :: (ys ++ rest)) := by
    rintro ⟨c, tail, heq, hc⟩
    rw [← (List.cons.inj heq).1, isWordChar_dot] at hc
    cases hc
  have hcs : (xs ++ '.' :: ys) ++ rest = xs ++ '.' :: (ys ++ rest) := by simp
  -- The second run starts right behind the dot, so the dot is taken.
  obtain ⟨c, tail, htail, hc⟩ := hy.startsWord.append rest
  rw [hcs]
  unfold splitWord
  rw [hx.takeWhile_append hdot, hx.dropWhile_append hdot, htail]
  simp only [hc, if_true]
  rw [← htail, hy.takeWhile_append hrest, hy.dropWhile_append hrest]

/-- A word that nothing continues is what `splitWord` takes off. -/
theorem splitWord_append_eq {word rest : List Char} (h : IsWord word)
    (hrest : ¬ Continues word rest) : splitWord (word ++ rest) = (word, rest) := by
  cases h with
  | run hx => exact splitWord_run hx hrest
  | dotted hx hy => exact splitWord_dotted hx hy fun hs => hrest (Or.inl hs)

theorem isWord_splitWord {cs : List Char} (h : StartsWord cs) : IsWord (splitWord cs).1 := by
  have hrun := h.isRun_takeWhile
  unfold splitWord
  split
  · next c tail _ =>
    split
    · next hc => exact .dotted hrun (StartsWord.isRun_takeWhile ⟨c, tail, rfl, hc⟩)
    · exact .run hrun
  · exact .run hrun

theorem not_continues_splitWord (cs : List Char) :
    ¬ Continues (splitWord cs).1 (splitWord cs).2 := by
  have hstop := not_startsWord_dropWhile cs
  unfold splitWord
  split
  · next c tail hdrop =>
    rw [hdrop] at hstop
    split
    · -- A second dot does not matter once the word has one.
      rintro (hs | ⟨hdot, -⟩)
      · exact not_startsWord_dropWhile (c :: tail) hs
      · exact hdot (by simp)
    · next hc =>
      rintro (hs | ⟨-, rest, hrest, d, rest', hd, hdc⟩)
      · exact hstop hs
      · simp only [List.cons.injEq, true_and] at hrest
        rw [← hrest] at hd
        exact hc ((List.cons.inj hd).1 ▸ hdc)
  · next hshape =>
    rintro (hs | ⟨-, rest, hrest, d, rest', rfl, -⟩)
    · exact hstop hs
    · exact hshape d rest' hrest

end FileShell.Token
