import FileShell.Editor.Hint
import FileShell.Proofs.Editor.Completion

/-!
# Hints for the word at the cursor

While a word is typed the hint finishes or corrects it by the same fixed words that completion
offers. Main statement: `ofShape_agrees`. A correction is shown only if nothing is offered.
-/

namespace FileShell.Editor.Hint

open Suggestion Text

variable {word choice rest line : String} {choices : List String} {role : TokenKind} {c : Cursor}

theorem ofSuggestion_of_append_eq (h : word ++ rest = choice) (hrest : rest ≠ "") :
    ofSuggestion word choice = some rest := by
  have hbegins : begins word choice = true := by
    rw [begins_iff, ← h, String.toList_append]
    exact List.prefix_append _ _
  have hdrop : choice.toList.drop word.toList.length = rest.toList := by
    rw [← h, String.toList_append, List.drop_left]
  rw [ofSuggestion, if_pos hbegins, hdrop]
  split
  · next hnil => exact absurd (String.toList_eq_nil_iff.mp hnil) hrest
  · rw [String.ofList_toList]

/-- A word that is finished has no hint. -/
theorem ofSuggestion_self (word : String) : ofSuggestion word word = none := by
  have hbegins : begins word word = true := begins_iff.mpr (List.prefix_refl _)
  rw [ofSuggestion, if_pos hbegins, List.drop_length]

theorem ofSuggestion_of_not_prefix (h : ¬ word.toList <+: choice.toList) :
    ofSuggestion word choice = some (" -> " ++ choice) := by
  rw [ofSuggestion, if_neg (fun hbegins => h (begins_iff.mp hbegins))]

/-- Where fixed words can stand, the hint is about the one that the word stands for. -/
theorem ofShape_of_demands (hword : c.word ≠ "") (h : Demands c.lead role choices) :
    ofShape c = (best c.word choices).bind (ofSuggestion c.word) := by
  rw [ofShape, if_neg hword, h.choices?_after]
  dsimp only
  cases best c.word choices with
  | none => rfl
  | some candidate => rfl

theorem ofShape_of_demandsNone (hword : c.word ≠ "") (h : DemandsNone c.lead) :
    ofShape c = none := by
  rw [ofShape, if_neg hword, h.choices?_after]

/-- If the history has nothing to say, the shape of the command gives the hint. -/
theorem find_of_nothing {h : History} {offset : Nat} (hc : Cursor.at? line offset = some c)
    (hend : byteLength line.toList ≤ offset) (hpast : ofHistory h line offset = .nothing) :
    find h line offset = some (ofShape c) := by
  rw [find, if_neg (Nat.not_lt.mpr hend), hpast, hc]
  rfl

/-- What the hint says if the word itself is a candidate. -/
theorem ofShape_of_mem (hword : c.word ≠ "") (h : Demands c.lead role choices)
    (hmem : c.word ∈ choices) : ofShape c = none := by
  rw [ofShape_of_demands hword h, best_of_mem hword hmem]
  exact ofSuggestion_self _

/-- What the hint says if the word begins candidates and is none of them. -/
theorem ofShape_of_begun (hword : c.word ≠ "") (h : Demands c.lead role choices)
    (hmem : c.word ∉ choices) {k : String}
    (hk : IsFirstLeast (fun k => byteLength k.toList)
      (choices.filter fun k => c.word.toList <+: k.toList) k) :
    ∃ rest, c.word ++ rest = k ∧ ofShape c = some rest := by
  obtain ⟨hchoice, hprefix⟩ := List.mem_filter.mp hk.mem
  obtain ⟨rest, hrest⟩ := of_decide_eq_true hprefix
  have happend : c.word ++ String.ofList rest = k := by
    rw [← String.toList_inj, String.toList_append, String.toList_ofList, hrest]
  have hne : String.ofList rest ≠ "" := by
    intro hnil
    rw [hnil, String.append_empty] at happend
    exact hmem (happend ▸ hchoice)
  refine ⟨String.ofList rest, happend, ?_⟩
  rw [ofShape_of_demands hword h, (Suggests.unfinished hword hk).best_eq]
  exact ofSuggestion_of_append_eq happend hne

/-- What the hint says if the word begins no candidate. -/
theorem ofShape_of_nearest (hword : c.word ≠ "") (h : Demands c.lead role choices)
    (hnone : ∀ k ∈ choices, ¬ c.word.toList <+: k.toList) {k : String}
    (hk : IsFirstLeast (distance c.word) choices k) :
    ofShape c = if 1 ≤ distance c.word k ∧ distance c.word k ≤ 2 then some (" -> " ++ k)
      else none := by
  have hpos : 1 ≤ distance c.word k := by
    by_contra hzero
    have heq := eq_of_levenshtein_eq_zero (Nat.eq_zero_of_not_pos hzero)
    exact hnone k hk.mem (heq ▸ List.prefix_refl _)
  rw [ofShape_of_demands hword h, best_of_nearest hword h.empty_notMem hnone hk]
  by_cases hnear : distance c.word k ≤ 2
  · rw [if_pos hnear, if_pos ⟨hpos, hnear⟩]
    exact ofSuggestion_of_not_prefix (hnone k hk.mem)
  · rw [if_neg hnear, if_neg (fun h => hnear h.2)]
    rfl

/-- At the end of a line, with a word begun there, the hint agrees with what completion offers.
Where fixed words can stand it is silent if the word is among the candidates; it is the rest of the
first one of the shortest candidates if there are others; and if there is none it corrects the word
to the first one of the nearest fixed words, unless that is more than two edits away. Where no fixed
word can stand there is no hint. -/
theorem ofShape_agrees (d : Disk) (home : Option String)
    (hc : Cursor.at? line (byteLength line.toList) = some c) (hword : c.word ≠ "") :
    (∀ h : History, ofHistory h line (byteLength line.toList) = .nothing →
      find h line (byteLength line.toList) = some (ofShape c)) ∧
    (∀ role choices offered, Demands c.lead role choices →
      (Completion.offer d home c).candidates.map Candidate.shown = offered →
      (c.word ∈ offered → ofShape c = none) ∧
      (c.word ∉ offered → offered ≠ [] →
        ∃ k rest, IsFirstLeast (fun k => byteLength k.toList) offered k ∧ c.word ++ rest = k ∧
          ofShape c = some rest) ∧
      (offered = [] → ∃ k, IsFirstLeast (distance c.word) choices k ∧
        ofShape c = if 1 ≤ distance c.word k ∧ distance c.word k ≤ 2 then some (" -> " ++ k)
          else none)) ∧
    (DemandsNone c.lead → ofShape c = none) := by
  refine ⟨fun h hpast => find_of_nothing hc (Nat.le_refl _) hpast, ?_,
    ofShape_of_demandsNone hword⟩
  intro role choices offered hdemands hoffered
  rw [Completion.offer_of_demands d home hdemands, Completion.shown_ofChoices] at hoffered
  subst hoffered
  have hself : c.word ∈ (choices.filter fun k => c.word.toList <+: k.toList) ↔
      c.word ∈ choices := by
    rw [List.mem_filter]
    simp
  rw [hself]
  refine ⟨ofShape_of_mem hword hdemands, ?_, ?_⟩
  · intro hmem hsome
    obtain ⟨k, hk⟩ := exists_isFirstLeast (fun k : String => byteLength k.toList) hsome
    obtain ⟨rest, happend, hhint⟩ := ofShape_of_begun hword hdemands hmem hk
    exact ⟨k, rest, hk, happend, hhint⟩
  · intro hnil
    have hnone : ∀ k ∈ choices, ¬ c.word.toList <+: k.toList := by
      simpa using List.filter_eq_nil_iff.mp hnil
    obtain ⟨k, hk⟩ := exists_isFirstLeast (distance c.word) hdemands.ne_nil
    exact ⟨k, hk, ofShape_of_nearest hword hdemands hnone hk⟩

/-- Two edits away from the connector, the word is corrected. -/
theorem ofShape_agrees_corrected :
    find {} "copy file ä ät" 16 = some (some " -> to") := by
  have hc : Cursor.at? "copy file ä ät" 16 = some ⟨"copy file ä ät".toList, []⟩ := by
    decide +kernel
  have hwords : Token.words (Token.tokenize (Cursor.lead ⟨"copy file ä ät".toList, []⟩)) =
      [⟨.keyword, "copy", 0⟩, ⟨.filename, "file", 5⟩, ⟨.filename, "ä", 10⟩] := by decide +kernel
  have hkeyword : "copy" = CommandKind.copy.shape.keyword := rfl
  have hdemands := Demands.literal hwords hkeyword rfl
  obtain ⟨hfind, hagrees, -⟩ := ofShape_agrees {} none hc (by decide +kernel)
  obtain ⟨-, -, hcorrected⟩ := hagrees _ _ [] hdemands (by decide +kernel)
  obtain ⟨k, hk, hhint⟩ := hcorrected rfl
  rw [List.mem_singleton.mp hk.mem] at hhint
  have hfind := hfind {} (by decide +kernel)
  rw [hhint, if_pos (by decide +kernel)] at hfind
  exact hfind

end FileShell.Editor.Hint
