import Mathlib.Data.List.Forall2
import FileShell.Proofs.Session.Reading
import FileShell.Proofs.Text.Encoding

/-!
# Reading line by line

An input is read line by line until there is nothing left: `readNext?` is one reading, and `answers`
are those of all of them. `Holds` says what a segment holds without reading it. A segment that is
not UTF-8 takes exactly its own bytes with it. Main statement: `answers_of_cut`.
-/

namespace FileShell.Input

/-- One reading: the answer, and what is left to be read. At the end of the input nothing is taken,
and there is no answer. -/
def readNext? (input : Bytes) : Option (Except Fault String × Bytes) :=
  let (segment, rest) := takeSegment input
  if segment = [] then none else some (readLine segment, rest)

theorem readNext?_of_ne_nil {input : Bytes} (h : input ≠ []) :
    readNext? input = some (readLine (takeSegment input).1, (takeSegment input).2) := by
  rw [readNext?]
  exact if_neg (takeSegment_ne_nil h)

theorem length_lt_of_readNext? {input rest : Bytes} {answer : Except Fault String}
    (h : readNext? input = some (answer, rest)) : rest.length < input.length := by
  by_cases hinput : input = []
  · subst hinput
    cases h
  · rw [readNext?_of_ne_nil hinput] at h
    cases h
    exact length_takeSegment_lt hinput

/-- The answers of reading again and again until there is none. -/
def answers (input : Bytes) : List (Except Fault String) :=
  match _ : readNext? input with
  | none => []
  | some (answer, rest) => answer :: answers rest
  termination_by input.length
  decreasing_by exact length_lt_of_readNext? ‹_›

theorem answers_nil : answers [] = [] := by
  rw [answers]
  rfl

theorem answers_of_ne_nil {input : Bytes} (h : input ≠ []) :
    answers input = readLine (takeSegment input).1 :: answers (takeSegment input).2 := by
  rw [answers]
  split
  · next hnone =>
    rw [readNext?_of_ne_nil h] at hnone
    cases hnone
  · next hsome =>
    rw [readNext?_of_ne_nil h] at hsome
    cases hsome
    rfl

/-- Reading on the way gives the lines of the input that is cut first. -/
theorem answers_eq_readLines (input : Bytes) : answers input = readLines input := by
  induction hlength : input.length using Nat.strongRecOn generalizing input with
  | ind n ih =>
    subst hlength
    by_cases hinput : input = []
    · subst hinput
      exact answers_nil
    · rw [answers_of_ne_nil hinput, ih _ (length_takeSegment_lt hinput) _ rfl, readLines,
        readLines, segments_of_takeSegment hinput, List.map_cons]

section Cut

variable {input segment : Bytes} {cut : List Bytes}

theorem IsCut.tail (h : IsCut input (segment :: cut)) : IsCut cut.flatten cut where
  flatten_eq := rfl
  ne_nil other hmem := h.ne_nil other (List.mem_cons_of_mem segment hmem)
  lineFeed_last other hmem := h.lineFeed_last other (List.mem_cons_of_mem segment hmem)
  last_lineFeed other hmem := by
    refine h.last_lineFeed other ?_
    rw [List.dropLast_cons_of_ne_nil (by rintro rfl; cases hmem)]
    exact List.mem_cons_of_mem segment hmem

/-- An input is cut in one way only. -/
theorem IsCut.eq_segments (h : IsCut input cut) : cut = segments input := by
  induction cut generalizing input with
  | nil =>
    rw [← h.flatten_eq]
    rfl
  | cons segment cut ih =>
    have hne := h.ne_nil segment List.mem_cons_self
    have hone : segments segment = [segment] :=
      Text.segments_of_notMem_dropLast (h.lineFeed_last segment List.mem_cons_self) hne
    rw [← h.flatten_eq, List.flatten_cons]
    by_cases hcut : cut = []
    · rw [hcut, List.flatten_nil, List.append_nil, hone]
    · have hlast := h.last_lineFeed segment (by
        rw [List.dropLast_cons_of_ne_nil hcut]
        exact List.mem_cons_self)
      rw [segments_append hlast, hone, ← ih h.tail, List.singleton_append]

end Cut

/-- What reading a segment has to answer. The bytes of a text hold the text without the line feeds
and carriage returns at its end, and with everything before them. -/
inductive Holds (segment : Bytes) : Except Fault String → Prop
  | notText : (∀ text, Text.encode text ≠ segment) → Holds segment (.error .notText)
  | line {line ending : String} : Text.encode (line ++ ending) = segment →
      (∀ c ∈ ending.toList, c = '\n' ∨ c = '\r') →
      (∀ c, line.toList.getLast? = some c → ¬(c = '\n' ∨ c = '\r')) → Holds segment (.ok line)

section Line

variable {segment : Bytes} {answer : Except Fault String} {c : Char}

theorem isLineEnd_iff : isLineEnd c = true ↔ c = '\n' ∨ c = '\r' := by
  rw [isLineEnd, Bool.or_eq_true, decide_eq_true_eq, decide_eq_true_eq]

theorem holds_readLine (segment : Bytes) : Holds segment (readLine segment) := by
  rw [readLine]
  cases hdecode : Text.decode? segment with
  | none => exact .notText (Text.decode?_eq_none_iff.mp hdecode)
  | some text =>
    obtain ⟨ending, htext, hending⟩ := Text.dropEndWhile_append_end (p := isLineEnd) text.toList
    refine @Holds.line _ _ (String.ofList ending) ?_ ?_ ?_
    · rw [← String.ofList_append, ← htext, String.ofList_toList]
      exact Text.decode?_eq_some_iff.mp hdecode
    · intro c hc
      rw [String.toList_ofList] at hc
      exact isLineEnd_iff.mp (hending c hc)
    · intro c hc
      rw [String.toList_ofList] at hc
      rw [← isLineEnd_iff, Text.eq_false_of_getLast?_dropEndWhile hc]
      exact Bool.false_ne_true

theorem Holds.readLine_eq (h : Holds segment answer) : readLine segment = answer := by
  cases h with
  | notText hnot => rw [readLine, Text.decode?_eq_none_iff.mpr hnot]
  | @line line ending hencode hending hline =>
    have hdrop : Text.dropEndWhile isLineEnd (line.toList ++ ending.toList) = line.toList :=
      Text.dropEndWhile_append (fun c hc => isLineEnd_iff.mpr (hending c hc))
        fun c hc => Bool.eq_false_iff.mpr fun hc' => hline c hc (isLineEnd_iff.mp hc')
    simp only [readLine, Text.decode?_eq_some_iff.mpr hencode, String.toList_append, hdrop,
      String.ofList_toList]

end Line

/-- After a line feed, reading goes on as if it began there. -/
theorem answers_append {input : Bytes} (h : input = [] ∨ input.getLast? = some lineFeed)
    (more : Bytes) : answers (input ++ more) = answers input ++ answers more := by
  rcases h with rfl | hlast
  · rw [answers_nil, List.nil_append, List.nil_append]
  · rw [answers_eq_readLines, answers_eq_readLines, answers_eq_readLines, readLines,
      segments_append hlast, List.map_append]
    rfl

/-- There is one answer for each segment of the input, and it is the one for what this segment
holds, whatever the others are. So an input that ends with a line feed is read by itself. -/
theorem answers_of_cut (input : Bytes) :
    readLines input = answers input ∧ (∃! cut, IsCut input cut) ∧
      (∀ cut, IsCut input cut → List.Forall₂ Holds cut (answers input)) ∧
      (∀ segment, ∃! answer, Holds segment answer) ∧
      ∀ more, input = [] ∨ input.getLast? = some lineFeed →
        answers (input ++ more) = answers input ++ answers more := by
  refine ⟨(answers_eq_readLines input).symm, ?_, ?_, ?_, ?_⟩
  · exact ⟨segments input, isCut_segments input, fun cut hcut => hcut.eq_segments⟩
  · intro cut hcut
    rw [hcut.eq_segments, answers_eq_readLines, readLines, List.forall₂_map_right_iff,
      List.forall₂_same]
    exact fun segment _ => holds_readLine segment
  · exact fun segment => ⟨readLine segment, holds_readLine segment, fun _ h => h.readLine_eq.symm⟩
  · exact fun more h => answers_append h more

/-- Carriage returns, a line that is not UTF-8 and an empty one, before a line that ends with the
input. -/
theorem answers_of_cut_malformed :
    ([97, 13, 13, 10, 98, 0xFF, 10, 10] : Bytes).getLast? = some lineFeed ∧
      answers ([97, 13, 13, 10, 98, 0xFF, 10, 10] ++ [99, 13]) =
        [.ok "a", .error .notText, .ok ""] ++ [.ok "c"] := by
  refine ⟨by decide, ?_⟩
  obtain ⟨hlines, -, -, -, happend⟩ := answers_of_cut [97, 13, 13, 10, 98, 0xFF, 10, 10]
  rw [happend [99, 13] (Or.inr (by decide)), ← hlines, ← (answers_of_cut [99, 13]).1]
  rfl

end FileShell.Input
