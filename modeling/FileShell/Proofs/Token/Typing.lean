import FileShell.Proofs.Token.Gaps

/-!
# Typing on

What becomes of the tokens of a text when it goes on. `Grown` says that only the last one has
changed, and that it begins as before. Main statement: `tokenize_append_grown`.
-/

namespace FileShell.Token

open Text

/-- The words of a text and of a longer one: all but the last are the same, and the last one begins
where it did and as it did. -/
inductive Grown : List Token → List Token → Prop
  | nil (longer : List Token) : Grown [] longer
  | last {t u : Token} (rest : List Token) : u.offset = t.offset → t.text.toList <+: u.text.toList →
      Grown [t] (u :: rest)
  | cons (t : Token) {words longer : List Token} : Grown words longer →
      Grown (t :: words) (t :: longer)

namespace Grown

variable {words longer : List Token} {t : Token}

theorem dropLast_prefix (h : Grown words longer) : words.dropLast <+: longer := by
  induction h with
  | nil => exact List.nil_prefix
  | last => exact List.nil_prefix
  | @cons t words longer _ ih =>
    cases words with
    | nil => exact List.nil_prefix
    | cons u words =>
      rw [List.dropLast_cons_cons]
      exact (List.prefix_cons_inj t).mpr ih

theorem exists_getElem? (h : Grown words longer) (hlast : words.getLast? = some t) :
    ∃ u, longer[words.length - 1]? = some u ∧ u.offset = t.offset ∧
      t.text.toList <+: u.text.toList := by
  induction h with
  | nil => cases hlast
  | @last s u rest hoffset htext =>
    rw [List.getLast?_singleton, Option.some.injEq] at hlast
    rw [← hlast]
    exact ⟨u, rfl, hoffset, htext⟩
  | @cons s words longer _ ih =>
    cases words with
    | nil =>
      rw [List.getLast?_singleton, Option.some.injEq] at hlast
      rw [← hlast]
      exact ⟨s, rfl, rfl, List.prefix_rfl⟩
    | cons u words =>
      rw [List.getLast?_cons_cons] at hlast
      exact ih hlast

end Grown

theorem IsRun.prefix_takeWhile {xs : List Char} (h : IsRun xs) (more : List Char) :
    xs <+: (xs ++ more).takeWhile isWordChar := by
  rw [List.takeWhile_append_of_pos h.2]
  exact List.prefix_append _ _

/-- A word is part of what is taken off where it stands. -/
theorem IsWord.prefix_splitWord {word : List Char} (h : IsWord word) (more : List Char) :
    word <+: (splitWord (word ++ more)).1 := by
  cases h with
  | run hx =>
    have hrun := hx.prefix_takeWhile more
    unfold splitWord
    split
    · split
      · exact hrun.trans (List.prefix_append _ _)
      · exact hrun
    · exact hrun
  | @dotted xs ys hx hy =>
    -- The second run may go on, and the word ends with it.
    have hrun : IsRun ((ys ++ more).takeWhile isWordChar) :=
      (hy.startsWord.append more).isRun_takeWhile
    have hsplit := splitWord_dotted hx hrun (not_startsWord_dropWhile (ys ++ more))
    rw [List.append_assoc, List.cons_append, List.takeWhile_append_dropWhile] at hsplit
    rw [List.append_assoc, List.cons_append, hsplit]
    exact (List.prefix_append_right_inj xs).mpr
      ((List.prefix_cons_inj '.').mpr (hy.prefix_takeWhile more))

/-- With more characters, the words of some characters have grown. -/
theorem grown_scan (offset : Nat) (cs more : List Char) :
    Grown (scan offset cs) (scan offset (cs ++ more)) := by
  -- Induction over the scan of the text: each word is kept, unless what follows continues it.
  fun_induction scan offset cs with
  | case1 offset => exact .nil _
  | case2 offset c cs hc word ih =>
    have hword : IsWord word.1 := isWord_splitWord ⟨c, cs, rfl, hc⟩
    have hline : c :: cs ++ more = word.1 ++ (word.2 ++ more) := by
      rw [← List.append_assoc, splitWord_append]
    by_cases hcontinues : Continues word.1 (word.2 ++ more)
    · -- No other word stands behind the one that goes on.
      have hend : scan (offset + byteLength word.1) word.2 = [] := by
        apply scan_of_apart
        rcases hcontinues.of_append (not_continues_splitWord (c :: cs)) with hnil | hdot
        · rw [hnil]
          decide
        · rw [hdot]
          decide
      have hgrown := hword.prefix_splitWord (word.2 ++ more)
      rw [← hline] at hgrown
      rw [hend, List.cons_append, scan, dif_pos hc]
      refine .last _ rfl ?_
      rw [String.toList_ofList, String.toList_ofList]
      exact hgrown
    · rw [hline, scan_append_word hword hcontinues]
      exact .cons _ ih
  | case3 offset c cs hc ih =>
    rw [List.cons_append, scan, dif_neg hc]
    exact ih

/-- Wherever a line is cut, the words of the part before are, without the last one, the first tokens
of the whole line, and the last one stands at the offset of the token at its index and begins
that. -/
theorem tokenize_append_grown (before after : String) :
    (words (tokenize before)).dropLast <+: tokenize (before ++ after) ∧
    ∀ t, (words (tokenize before)).getLast? = some t →
      ∃ u, (tokenize (before ++ after))[(words (tokenize before)).length - 1]? = some u ∧
        u.offset = t.offset ∧ t.text.toList <+: u.text.toList := by
  have hgrown := grown_scan 0 before.toList after.toList
  rw [words_tokenize, tokenize, String.toList_append]
  refine ⟨hgrown.dropLast_prefix.trans (List.prefix_append _ _), ?_⟩
  intro t hlast
  obtain ⟨u, hu, hoffset, htext⟩ := hgrown.exists_getElem? hlast
  refine ⟨u, ?_, hoffset, htext⟩
  rw [List.getElem?_append_left (List.getElem?_eq_some_iff.mp hu).1, hu]

/-- Cut behind a dot, the last word goes on over the dot. -/
theorem tokenize_append_grown_dotted :
    (words (tokenize "x ä.")).getLast? = some ⟨.filename, "ä", 2⟩ ∧
      ∃ u, (tokenize ("x ä." ++ "b.c"))[(words (tokenize "x ä.")).length - 1]? = some u ∧
        u.offset = 2 ∧ "ä".toList <+: u.text.toList := by
  have hlast : (words (tokenize "x ä.")).getLast? = some ⟨.filename, "ä", 2⟩ := by decide +kernel
  exact ⟨hlast, (tokenize_append_grown _ _).2 _ hlast⟩

end FileShell.Token
