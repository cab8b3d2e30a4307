import FileShell.Editor.Cursor
import FileShell.Proofs.Token.Separators

/-!
# The word at the cursor

The word at the cursor begins behind a separator (`Cursor.endsApart_lead`), or where the line does,
and no longer one made of the same characters ends there (`Cursor.suffix_word`). So the words of
what stands before the cursor are those before the word at the cursor and those of that word, which
are more than one if it has several dots. Main statement: `words_cut_apart`.
-/

namespace FileShell.Editor.Cursor

open Text Token

variable {line : String} {offset : Nat} {c : Cursor}

theorem isWordPart_eq_false_iff {ch : Char} : isWordPart ch = false ↔ Separates ch := by
  simp [isWordPart, Separates]

theorem lead_append_word (c : Cursor) : c.lead.toList ++ c.word.toList = c.before := by
  rw [lead, word, String.toList_ofList, String.toList_ofList, ← List.reverse_append,
    List.takeWhile_append_dropWhile, List.reverse_reverse]

theorem endsApart_lead (c : Cursor) : EndsApart c.lead.toList := by
  intro ch hlast
  rw [lead, String.toList_ofList, List.getLast?_reverse] at hlast
  have hhead := List.head?_dropWhile_not isWordPart c.before.reverse
  rw [hlast] at hhead
  exact isWordPart_eq_false_iff.mp hhead

theorem of_at? (h : Cursor.at? line offset = some c) :
    line.toList = c.before ++ c.after ∧ byteLength c.before = offset := by
  obtain ⟨parts, hcut, rfl⟩ := Option.map_eq_some_iff.mp h
  exact eq_append_of_cutAt hcut

/-- The parts of a line around the start of the word at the cursor. -/
theorem cutAt_wordStart (h : Cursor.at? line offset = some c) :
    cutAt line.toList c.wordStart = some (c.lead.toList, c.word.toList ++ c.after) := by
  rw [(of_at? h).1, wordStart, ← lead_append_word c, List.append_assoc]
  exact cutAt_byteLength _ _

theorem before_of_at?_end (h : Cursor.at? line (byteLength line.toList) = some c) :
    c.before = line.toList := by
  obtain ⟨hparts, hlen⟩ := of_at? h
  have hafter : c.after = [] := by
    apply byteLength_eq_zero
    rw [hparts, byteLength_append] at hlen
    omega
  rw [hparts, hafter, List.append_nil]

/-- Behind a separator no word is begun. -/
theorem word_of_endsApart (h : EndsApart c.before) : c.word = "" := by
  rw [word]
  cases hrev : c.before.reverse with
  | nil => rfl
  | cons ch rest =>
    have hlast : c.before.getLast? = some ch := by
      rw [← List.head?_reverse, hrev, List.head?_cons]
    have hpart : ¬ isWordPart ch = true := by
      rw [isWordPart_eq_false_iff.mpr (h ch hlast)]
      decide
    rw [List.takeWhile_cons_of_neg hpart]
    rfl

/-- There is a cursor wherever a line can be cut. -/
theorem at?_append (before after : String) :
    Cursor.at? (before ++ after) (byteLength before.toList) =
      some ⟨before.toList, after.toList⟩ := by
  rw [Cursor.at?, String.toList_append, cutAt_byteLength]
  rfl

theorem isWordPart_iff {ch : Char} : isWordPart ch = true ↔ isWordChar ch = true ∨ ch = '.' := by
  simp [isWordPart]

theorem isWordPart_of_mem_word (c : Cursor) :
    ∀ ch ∈ c.word.toList, isWordPart ch = true := by
  intro ch hch
  rw [word, String.toList_ofList, List.mem_reverse] at hch
  exact List.mem_takeWhile_imp hch

/-- Of the characters in front of the cursor, no more can belong to the word. -/
theorem suffix_word {ending : List Char} (h : ending <:+ c.before)
    (hparts : ∀ ch ∈ ending, isWordPart ch = true) : ending <:+ c.word.toList := by
  obtain ⟨front, hfront⟩ := h
  have hback : ∀ ch ∈ ending.reverse, isWordPart ch = true :=
    fun ch hch => hparts ch (List.mem_reverse.mp hch)
  rw [word, String.toList_ofList, ← hfront, List.reverse_append,
    List.takeWhile_append_of_pos hback, List.reverse_append, List.reverse_reverse]
  exact List.suffix_append _ _

theorem lead_append_word_eq (c : Cursor) : c.lead ++ c.word = String.ofList c.before := by
  rw [← String.toList_inj, String.toList_append, lead_append_word, String.toList_ofList]

theorem wordStart_le (c : Cursor) : c.wordStart ≤ byteLength c.before := by
  rw [wordStart, ← lead_append_word c, byteLength_append]
  exact Nat.le_add_right _ _

/-- The words in front of a cursor are cut where the word at the cursor begins. -/
theorem words_tokenize_before (c : Cursor) :
    words (tokenize (String.ofList c.before)) =
      words (tokenize c.lead) ++ (words (tokenize c.word)).map (raise c.wordStart) := by
  rw [← lead_append_word_eq]
  exact words_tokenize_append c.endsApart_lead c.word

/-- A separator cuts the words of a line into those in front of it and those behind it. And wherever
the cursor stands in a line, the word at the cursor begins at a boundary not behind it and reaches
to it, is the longest piece of word characters and dots that does so, and is cut apart from what
stands before it: the words in front of the cursor are those before the start of the word and those
of the word itself. -/
theorem words_cut_apart :
    (∀ (u v : String) (c : Char), isWordChar c = false → c ≠ '.' →
      words (tokenize (u ++ String.singleton c ++ v)) = words (tokenize u) ++
        (words (tokenize v)).map (raise (byteLength (u ++ String.singleton c).toList))) ∧
    ∀ before after : String, ∃ c : Cursor,
      Cursor.at? (before ++ after) (byteLength before.toList) = some c ∧
      cutAt (before ++ after).toList c.wordStart =
        some (c.lead.toList, c.word.toList ++ after.toList) ∧
      c.wordStart ≤ byteLength before.toList ∧ c.lead ++ c.word = before ∧
      (∀ ch ∈ c.word.toList, isWordChar ch = true ∨ ch = '.') ∧
      (∀ ending, ending <:+ before.toList →
        (∀ ch ∈ ending, isWordChar ch = true ∨ ch = '.') → ending <:+ c.word.toList) ∧
      words (tokenize before) =
        words (tokenize c.lead) ++ (words (tokenize c.word)).map (raise c.wordStart) := by
  refine ⟨?_, ?_⟩
  · intro u v c hchar hdot
    have hc : Separates c := ⟨hchar, hdot⟩
    have hend : EndsApart (u ++ String.singleton c).toList := by
      rw [String.toList_append, String.toList_singleton]
      exact hc.endsApart u.toList
    rw [words_tokenize_append hend, hc.words_tokenize_append_singleton]
  · intro before after
    have hc := at?_append before after
    have happend := lead_append_word_eq ⟨before.toList, after.toList⟩
    have hwords := words_tokenize_before ⟨before.toList, after.toList⟩
    rw [String.ofList_toList] at happend hwords
    refine ⟨_, hc, cutAt_wordStart hc, wordStart_le _, happend, ?_, ?_, hwords⟩
    · exact fun ch hch => isWordPart_iff.mp (isWordPart_of_mem_word _ ch hch)
    · exact fun ending hsuffix hparts =>
        suffix_word hsuffix fun ch hch => isWordPart_iff.mpr (hparts ch hch)

/-- Dots on both sides of a separator join nothing across it, and those in front of a cursor belong
to the word there. -/
theorem words_cut_apart_dots :
    words (tokenize ("ä." ++ String.singleton '-' ++ ".b")) =
        [⟨.filename, "ä", 0⟩, ⟨.filename, "b", 5⟩] ∧
      ∃ c, Cursor.at? ("x ä..b" ++ "c") 7 = some c ∧ "ä..b".toList <:+ c.word.toList := by
  obtain ⟨hsplit, hcursor⟩ := words_cut_apart
  refine ⟨?_, ?_⟩
  · rw [hsplit "ä." ".b" '-' (by decide) (by decide)]
    decide +kernel
  · obtain ⟨c, hc, -, -, -, -, hlongest, -⟩ := hcursor "x ä..b" "c"
    have hparts : "ä..b".toList.all isWordPart = true := by decide +kernel
    exact ⟨c, hc, hlongest _ (by decide) fun ch hch =>
      isWordPart_iff.mp (List.all_eq_true.mp hparts ch hch)⟩

end FileShell.Editor.Cursor
