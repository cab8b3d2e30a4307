import FileShell.Proofs.Text.Trim
import FileShell.Text.Lines

/-!
# Cutting a text into lines

A list is cut at its marks one after the other (`segments_append_cons`), and any list is put
together from what stands before its marks (`segmentInduction`). So a list that ends with a mark is
cut by itself, whatever follows it (`segments_append`). The line end that a line loses is blank.
-/

namespace FileShell.Text

section Segments

variable {α : Type} [DecidableEq α] {mark : α} {xs : List α}

theorem segments_append_cons (h : mark ∉ xs) (ys : List α) :
    segments mark (xs ++ mark :: ys) = (xs ++ [mark]) :: segments mark ys := by
  induction xs with
  | nil => rw [List.nil_append, segments, if_pos rfl, List.nil_append]
  | cons x xs ih =>
    have hx : x ≠ mark := fun heq => h (heq ▸ List.mem_cons_self)
    have hxs := ih fun hmem => h (List.mem_cons_of_mem x hmem)
    rw [List.cons_append, segments, if_neg hx, hxs]
    rfl

theorem segments_of_notMem (h : mark ∉ xs) (hne : xs ≠ []) : segments mark xs = [xs] := by
  induction xs with
  | nil => exact absurd rfl hne
  | cons x xs ih =>
    have hx : x ≠ mark := fun heq => h (heq ▸ List.mem_cons_self)
    rw [segments, if_neg hx]
    cases xs with
    | nil => rfl
    | cons y ys => rw [ih (fun hmem => h (List.mem_cons_of_mem x hmem)) (List.cons_ne_nil y ys)]

/-- With a mark at the end at most, the list is not cut. -/
theorem segments_of_notMem_dropLast (h : mark ∉ xs.dropLast) (hne : xs ≠ []) :
    segments mark xs = [xs] := by
  obtain ⟨front, x, rfl⟩ : ∃ front x, xs = front ++ [x] :=
    ⟨xs.dropLast, xs.getLast hne, (List.dropLast_concat_getLast hne).symm⟩
  rw [List.dropLast_concat] at h
  by_cases hx : x = mark
  · rw [hx, segments_append_cons h]
    rfl
  · refine segments_of_notMem ?_ hne
    simp only [List.mem_append, List.mem_singleton, not_or]
    exact ⟨h, fun heq => hx heq.symm⟩

/-- Any list is a list without a mark, or such a list before a mark and another list. -/
@[elab_as_elim]
theorem segmentInduction {motive : List α → Prop} (mark : α)
    (unmarked : ∀ xs, mark ∉ xs → motive xs)
    (marked : ∀ xs ys, mark ∉ xs → motive ys → motive (xs ++ mark :: ys)) (xs : List α) :
    motive xs := by
  by_cases hmem : mark ∈ xs
  · obtain ⟨front, back, hxs, hfront⟩ := List.eq_append_cons_of_mem hmem
    have hlt : back.length < xs.length := by
      rw [hxs, List.length_append, List.length_cons]
      omega
    rw [hxs]
    exact marked front back hfront (segmentInduction mark unmarked marked back)
  · exact unmarked xs hmem
termination_by xs.length

/-- A mark ends its segment, whatever follows it. -/
theorem segments_append (h : ∀ x, xs.getLast? = some x → x = mark) (ys : List α) :
    segments mark (xs ++ ys) = segments mark xs ++ segments mark ys := by
  induction xs using segmentInduction mark with
  | unmarked xs hxs =>
    cases hlast : xs.getLast? with
    | none =>
      rw [List.getLast?_eq_none_iff.mp hlast]
      rfl
    | some x => exact absurd (h x hlast ▸ List.mem_of_getLast? hlast) hxs
  | marked front back hfront ih =>
    have hback : ∀ x, back.getLast? = some x → x = mark := by
      intro x hx
      apply h
      rw [List.getLast?_append, List.getLast?_cons, hx]
      rfl
    rw [List.append_assoc, List.cons_append, segments_append_cons hfront,
      segments_append_cons hfront, ih hback, List.cons_append]

end Segments

/-- The text ends where a line ends. -/
def EndsLine (text : String) : Prop :=
  ∀ c, text.toList.getLast? = some c → c = '\n'

/-- What stands between two lines. -/
def IsLineEnd (ending : String) : Prop :=
  ending = "\n" ∨ ending = "\r\n"

variable {text line ending : String} {c : Char} {cs : List Char}

theorem EndsLine.of_getLast? (h : text.toList.getLast? = some '\n') : EndsLine text :=
  fun _ hc => Option.some.inj (hc.symm.trans h)

theorem IsLineEnd.endsLine_append (h : IsLineEnd ending) (line : String) :
    EndsLine (line ++ ending) := by
  apply EndsLine.of_getLast?
  rw [String.toList_append, List.getLast?_append]
  rcases h with rfl | rfl
  · rfl
  · rfl

theorem IsLineEnd.allBlank (h : IsLineEnd ending) : AllBlank ending.toList := by
  rcases h with rfl | rfl
  · exact List.forall_mem_singleton.mpr rfl
  · exact List.forall_mem_cons.mpr ⟨rfl, List.forall_mem_singleton.mpr rfl⟩

/-- A line with its end, or the last one without, has a line feed at its end at most. -/
theorem lineFeed_notMem_dropLast (h : '\n' ∉ line.toList)
    (hending : ending = "" ∨ IsLineEnd ending) : '\n' ∉ (line ++ ending).toList.dropLast := by
  rw [String.toList_append]
  rcases hending with rfl | rfl | rfl
  · intro hmem
    rw [String.toList_empty, List.append_nil] at hmem
    exact h (List.dropLast_subset _ hmem)
  · rw [List.dropLast_append_of_ne_nil (by decide)]
    simpa using h
  · rw [List.dropLast_append_of_ne_nil (by decide)]
    simpa using h

theorem lines_append (h : EndsLine text) (more : String) :
    lines (text ++ more) = lines text ++ lines more := by
  rw [lines, String.toList_append, segments_append h, List.map_append]
  rfl

/-- With a line feed at the end at most, a text is one line. -/
theorem lines_of_segment (h : '\n' ∉ cs.dropLast) (hne : cs ≠ []) :
    lines (String.ofList cs) = [String.ofList (dropLineEnd cs)] := by
  rw [lines, String.toList_ofList, segments_of_notMem_dropLast h hne, List.map_singleton]

/-- A line loses its line feed, alone or with a carriage return before it. -/
theorem dropLineEnd_cases (cs : List Char) : cs = dropLineEnd cs ++ ['\r', '\n'] ∨
    cs = dropLineEnd cs ++ ['\n'] ∨ cs = dropLineEnd cs ∧ cs.getLast? ≠ some '\n' := by
  unfold dropLineEnd
  split
  · next rest hcs =>
    left
    rw [← List.reverse_reverse cs, hcs]
    simp
  · next rest _ hcs =>
    right; left
    rw [← List.reverse_reverse cs, hcs]
    simp
  · next hcrlf hlf =>
    refine Or.inr (Or.inr ⟨rfl, ?_⟩)
    intro hlast
    obtain ⟨front, hfront⟩ := List.getLast?_eq_some_iff.mp hlast
    exact hlf front.reverse (by rw [hfront, List.reverse_append]; rfl)

/-- A line is what is left without its line end, with that end. -/
theorem dropLineEnd_append_end (cs : List Char) : ∃ ending, cs = dropLineEnd cs ++ ending ∧
    AllBlank ending ∧ '\n' ∉ ending.dropLast ∧
      (cs.getLast? = some '\n' → ending.getLast? = some '\n') := by
  rcases dropLineEnd_cases cs with hcs | hcs | ⟨hcs, hlast⟩
  · refine ⟨['\r', '\n'], hcs, ?_, by decide, fun _ => rfl⟩
    exact List.forall_mem_cons.mpr ⟨rfl, List.forall_mem_singleton.mpr rfl⟩
  · exact ⟨['\n'], hcs, List.forall_mem_singleton.mpr rfl, by decide, fun _ => rfl⟩
  · refine ⟨[], ?_, List.forall_mem_nil _, List.not_mem_nil, fun h => absurd h hlast⟩
    rw [List.append_nil]
    exact hcs

theorem trimChars_dropLineEnd (cs : List Char) : trimChars (dropLineEnd cs) = trimChars cs := by
  obtain ⟨ending, hcs, hending, -⟩ := dropLineEnd_append_end cs
  have htrim := trimChars_append_of_blank hending (dropLineEnd cs)
  rw [← hcs] at htrim
  exact htrim.symm

theorem mem_of_mem_dropLineEnd (h : c ∈ dropLineEnd cs) : c ∈ cs := by
  obtain ⟨ending, hcs, -⟩ := dropLineEnd_append_end cs
  rw [hcs]
  exact List.mem_append_left ending h

end FileShell.Text
