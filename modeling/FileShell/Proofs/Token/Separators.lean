import FileShell.Proofs.Token.Gaps
import FileShell.Text.Blank

/-!
# Separators

A character that is neither a word character nor a dot separates: no word reaches across it, and it
ends the look ahead for a dot that joins two runs. So what stands behind such a character is
scanned as if the line began there (`scan_append_of_endsApart`), and its words are only further
back in the line (`words_tokenize_append`). Blanks separate (`separates_of_isBlank`).
-/

namespace FileShell

namespace Text

/-- The code points that lie in a list of ranges. -/
def codePoints (ranges : List (Nat × Nat)) : List Nat :=
  ranges.flatMap fun (low, high) => List.range' low (high + 1 - low)

theorem mem_codePoints {ranges : List (Nat × Nat)} {n : Nat} (h : inRanges ranges n = true) :
    n ∈ codePoints ranges := by
  induction ranges with
  | nil => cases h
  | cons range ranges ih =>
    rw [inRanges] at h
    split at h
    · cases h
    · rw [codePoints, List.flatMap_cons, List.mem_append, List.mem_range'_1]
      rcases Bool.or_eq_true_iff.mp h with hle | hrest
      · have hle := of_decide_eq_true hle
        exact Or.inl (by omega)
      · exact Or.inr (ih hrest)

end Text

namespace Token

open Text

/-- A character that no word reaches across. -/
def Separates (c : Char) : Prop :=
  isWordChar c = false ∧ c ≠ '.'

/-- The last character separates, if there is one. -/
def EndsApart (cs : List Char) : Prop :=
  ∀ c, cs.getLast? = some c → Separates c

variable {c : Char} {word rest : List Char}

theorem Separates.not_startsWord (h : Separates c) (more : List Char) :
    ¬ StartsWord (c :: more) := by
  rintro ⟨d, tail, heq, hd⟩
  rw [← (List.cons.inj heq).1, h.1] at hd
  cases hd

/-- What does not continue a word does so neither with a separator behind it. -/
theorem Separates.not_continues_append (h : Separates c) (hrest : ¬ Continues word rest)
    (more : List Char) : ¬ Continues word (rest ++ c :: more) := by
  intro hcontinues
  -- The separator would be the next character behind the word, or behind a dot.
  rcases hcontinues.of_append hrest with rfl | rfl
  · rcases hcontinues with hstart | ⟨-, tail, heq, -⟩
    · exact h.not_startsWord more hstart
    · exact h.2 (List.cons.inj heq).1
  · rcases hcontinues with ⟨d, tail, heq, hd⟩ | ⟨-, tail, heq, hstart⟩
    · rw [← (List.cons.inj heq).1, isWordChar_dot] at hd
      cases hd
    · rw [← (List.cons.inj heq).2] at hstart
      exact h.not_startsWord more hstart

/-- A line is scanned in two parts at a separator. -/
theorem Separates.scan_append (h : Separates c) (offset : Nat) (cs more : List Char) :
    scan offset (cs ++ c :: more) =
      scan offset cs ++ scan (offset + byteLength cs + c.utf8Size) more := by
  fun_induction scan offset cs with
  | case1 offset =>
    have hc : ¬ isWordChar c = true := by simp [h.1]
    rw [List.nil_append, scan, dif_neg hc]
    rfl
  | case2 offset d cs hd word ih =>
    have hword : IsWord word.1 := isWord_splitWord ⟨d, cs, rfl, hd⟩
    have hrest : ¬ Continues word.1 (word.2 ++ c :: more) :=
      h.not_continues_append (not_continues_splitWord (d :: cs)) more
    have hsplit : word.1 ++ word.2 = d :: cs := splitWord_append (d :: cs)
    have hlen : byteLength (d :: cs) = byteLength word.1 + byteLength word.2 := by
      rw [← hsplit, byteLength_append]
    have hline : d :: cs ++ c :: more = word.1 ++ (word.2 ++ c :: more) := by
      rw [← hsplit, List.append_assoc]
    rw [hline, scan_append_word hword hrest, ih, hlen, ← Nat.add_assoc offset]
    rfl
  | case3 offset d cs hd ih =>
    rw [List.cons_append, scan, dif_neg hd, ih, byteLength_cons, ← Nat.add_assoc offset]

/-- A separator at the end of a line is no word and ends none early. -/
theorem Separates.scan_concat (h : Separates c) (offset : Nat) (cs : List Char) :
    scan offset (cs ++ [c]) = scan offset cs := by
  rw [h.scan_append, scan, List.append_nil]

/-- Behind a separator a line is scanned as if it began there. -/
theorem scan_append_of_endsApart {cs : List Char} (h : EndsApart cs) (offset : Nat)
    (more : List Char) :
    scan offset (cs ++ more) = scan offset cs ++ scan (offset + byteLength cs) more := by
  cases hlast : cs.getLast? with
  | none =>
    rw [List.getLast?_eq_none_iff.mp hlast, scan]
    rfl
  | some c =>
    have hc : Separates c := h c hlast
    obtain ⟨front, rfl⟩ := List.getLast?_eq_some_iff.mp hlast
    rw [hc.scan_concat, List.append_assoc, List.cons_append, List.nil_append, hc.scan_append,
      byteLength_append, byteLength_cons, byteLength_nil, Nat.add_zero, Nat.add_assoc]

/-- A token that stands further back in a line by a number of bytes. -/
def raise (n : Nat) (t : Token) : Token :=
  { t with offset := t.offset + n }

theorem scan_add (offset n : Nat) (cs : List Char) :
    scan (offset + n) cs = (scan offset cs).map (raise n) := by
  fun_induction scan offset cs with
  | case1 offset =>
    rw [scan]
    rfl
  | case2 offset c cs hc word ih =>
    rw [scan, dif_pos hc, List.map_cons, ← ih, Nat.add_right_comm]
    rfl
  | case3 offset c cs hc ih => rw [scan, dif_neg hc, Nat.add_right_comm, ih]

/-- The words behind a separator are those of the rest, further back in the line. -/
theorem words_tokenize_append {text : String} (h : EndsApart text.toList) (rest : String) :
    words (tokenize (text ++ rest)) =
      words (tokenize text) ++ (words (tokenize rest)).map (raise (byteLength text.toList)) := by
  rw [words_tokenize, words_tokenize, words_tokenize, String.toList_append,
    scan_append_of_endsApart h, scan_add]

theorem Separates.endsApart (h : Separates c) (cs : List Char) : EndsApart (cs ++ [c]) := by
  intro d hlast
  rw [List.getLast?_concat, Option.some.injEq] at hlast
  exact hlast ▸ h

theorem Separates.words_tokenize_append_singleton (h : Separates c) (text : String) :
    words (tokenize (text ++ String.singleton c)) = words (tokenize text) := by
  rw [words_tokenize, words_tokenize, String.toList_append, String.toList_singleton,
    h.scan_concat]

theorem separates_of_isBlank (h : isBlank c = true) : Separates c := by
  have hplain : ∀ n ∈ codePoints blankRanges,
      isWordChar (Char.ofNat n) = false ∧ Char.ofNat n ≠ '.' := by
    decide +kernel
  have hc := hplain c.toNat (mem_codePoints h)
  rw [Char.ofNat_toNat] at hc
  exact hc

end Token

end FileShell
