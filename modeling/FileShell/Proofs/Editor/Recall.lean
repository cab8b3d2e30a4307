import FileShell.Proofs.Editor.Hint

/-!
# Hints from the history

`History.Newest` says which entry of a history is the newest one that begins with a text; it is the
one that a search from the last entry finds (`History.newest?_eq_some_iff`). Main statement:
`find_recalls`, the hint at the end of a line is the rest of that entry, and if this is the line
itself, or if there is none, what the shape of the command gives.
-/

namespace FileShell

open Text

namespace History

variable {h : History} {text entry : String}

/-- An entry that begins with a text, and no newer one does. -/
structure Newest (h : History) (text entry : String) : Prop where
  begins : text.toList <+: entry.toList
  placed : ∃ older newer, h.entries = older ++ entry :: newer ∧
    ∀ other ∈ newer, ¬ text.toList <+: other.toList

/-- From the last entry on, all entries are searched. -/
theorem newest?_eq_find? (h : History) (text : List Char) :
    h.newest? text = h.entries.reverse.find? fun entry => text.isPrefixOf entry.toList := by
  rw [newest?, search?]
  split
  · next hlt =>
    rw [Nat.sub_add_cancel (Nat.one_le_of_lt hlt), List.take_length]
  · next hge =>
    have hnil : h.entries = [] := List.eq_nil_of_length_eq_zero (by omega)
    rw [hnil]
    rfl

theorem newest?_eq_some_iff : h.newest? text.toList = some entry ↔ h.Newest text entry := by
  have hothers : ∀ others : List String,
      (∀ other ∈ others, (!text.toList.isPrefixOf other.toList) = true) ↔
        ∀ other ∈ others, ¬ text.toList <+: other.toList := by
    intro others
    simp [← List.isPrefixOf_iff_prefix]
  rw [newest?_eq_find?, List.find?_eq_some_iff_append, List.isPrefixOf_iff_prefix]
  constructor
  · rintro ⟨hbegins, newer, older, hentries, hnewer⟩
    refine ⟨hbegins, older.reverse, newer.reverse, ?_, ?_⟩
    · rw [List.reverse_eq_iff.mp hentries, List.reverse_append, List.reverse_cons,
        List.append_assoc]
      rfl
    · exact fun other hother => (hothers newer).mp hnewer other (List.mem_reverse.mp hother)
  · rintro ⟨hbegins, older, newer, hentries, hnewer⟩
    refine ⟨hbegins, newer.reverse, older.reverse, ?_, ?_⟩
    · rw [hentries, List.reverse_append, List.reverse_cons, List.append_assoc]
      rfl
    · exact (hothers _).mpr fun other hother => hnewer other (List.mem_reverse.mp hother)

theorem newest?_eq_none_iff :
    h.newest? text.toList = none ↔ ∀ entry ∈ h.entries, ¬ text.toList <+: entry.toList := by
  simp [newest?_eq_find?]

/-- One of the entries that begin with a text is the newest one. -/
theorem exists_newest_or (h : History) (text : String) :
    (∃ entry, h.Newest text entry) ∨ ∀ entry ∈ h.entries, ¬ text.toList <+: entry.toList := by
  cases hsearch : h.newest? text.toList with
  | some entry => exact Or.inl ⟨entry, newest?_eq_some_iff.mp hsearch⟩
  | none => exact Or.inr (newest?_eq_none_iff.mp hsearch)

end History

namespace Editor.Hint

variable {h : History} {line entry : String}

/-- An entry that goes on behind the line is cut where the line ends. -/
theorem ofHistory_of_newest (hline : line ≠ "") (hnewest : h.Newest line entry)
    (hne : entry ≠ line) :
    ∃ rest, rest ≠ "" ∧ line ++ rest = entry ∧
      cutAt entry.toList (byteLength line.toList) = some (line.toList, rest.toList) ∧
      ofHistory h line (byteLength line.toList) = .rest rest := by
  obtain ⟨rest, hrest⟩ := hnewest.begins
  have happend : line ++ String.ofList rest = entry := by
    rw [← String.toList_inj, String.toList_append, String.toList_ofList, hrest]
  have hcut : cutAt entry.toList (byteLength line.toList) = some (line.toList, rest) := by
    rw [← hrest]
    exact cutAt_byteLength _ _
  cases rest with
  | nil => exact absurd happend.symm (by simpa using hne)
  | cons c rest =>
    refine ⟨String.ofList (c :: rest), by simp, happend, by rw [hcut, String.toList_ofList], ?_⟩
    rw [ofHistory, if_neg hline, History.newest?_eq_some_iff.mpr hnewest]
    simp only [if_neg hne, hcut]

/-- A line that is the newest entry it begins asks no older ones. -/
theorem ofHistory_of_newest_self (hnewest : h.Newest line line) (offset : Nat) :
    ofHistory h line offset = .nothing := by
  rw [ofHistory, History.newest?_eq_some_iff.mpr hnewest]
  simp

theorem ofHistory_of_forall_not
    (hnone : ∀ entry ∈ h.entries, ¬ line.toList <+: entry.toList) (offset : Nat) :
    ofHistory h line offset = .nothing := by
  rw [ofHistory, History.newest?_eq_none_iff.mpr hnone]
  simp

theorem find_of_rest {rest : String}
    (hrest : ofHistory h line (byteLength line.toList) = .rest rest) :
    find h line (byteLength line.toList) = some (some rest) := by
  rw [find, if_neg (Nat.lt_irrefl _), hrest]

/-- At the end of a line, the shape of the command gives the hint if the history has none. -/
theorem find_end_of_nothing (hpast : ofHistory h line (byteLength line.toList) = .nothing) :
    find h line (byteLength line.toList) = some (ofShape ⟨line.toList, []⟩) := by
  have hc := Cursor.at?_append line ""
  rw [String.append_empty] at hc
  exact find_of_nothing hc (Nat.le_refl _) hpast

/-- At the end of a line that is not empty, the hint is the rest of the newest entry that begins
with the line, which is cut where the line ends. If that entry is the line itself, or if there is
none, the shape of the command gives the hint, whatever older entries there are. In front of the end
of a line there is no hint. -/
theorem find_recalls (h : History) (hline : line ≠ "") :
    ((∃ entry, h.Newest line entry) ∨
      ∀ entry ∈ h.entries, ¬ line.toList <+: entry.toList) ∧
    (∀ entry, h.Newest line entry → entry ≠ line →
      ∃ rest, rest ≠ "" ∧ line ++ rest = entry ∧
        cutAt entry.toList (byteLength line.toList) = some (line.toList, rest.toList) ∧
        find h line (byteLength line.toList) = some (some rest)) ∧
    (h.Newest line line ∨ (∀ entry ∈ h.entries, ¬ line.toList <+: entry.toList) →
      find h line (byteLength line.toList) = some (ofShape ⟨line.toList, []⟩)) ∧
    ∀ offset, offset < byteLength line.toList → find h line offset = some none := by
  refine ⟨h.exists_newest_or line, ?_, ?_, ?_⟩
  · intro entry hnewest hne
    obtain ⟨rest, hrest, happend, hcut, hhistory⟩ := ofHistory_of_newest hline hnewest hne
    exact ⟨rest, hrest, happend, hcut, find_of_rest hhistory⟩
  · rintro (hself | hnone)
    · exact find_end_of_nothing (ofHistory_of_newest_self hself _)
    · exact find_end_of_nothing (ofHistory_of_forall_not hnone _)
  · intro offset hlt
    rw [find, if_pos hlt]

/-- The newest entry that begins with the line gives the hint, and an entry that is the line itself
leaves it to the shape of the command, even if an older one goes on. -/
theorem find_recalls_umlaut :
    (∃ rest, rest ≠ "" ∧ "copy file ä" ++ rest = "copy file ä to c" ∧
        cutAt "copy file ä to c".toList 12 = some ("copy file ä".toList, rest.toList) ∧
        find ⟨["copy file ä to b", "copy file ä to c", "exit"], 0⟩ "copy file ä" 12 =
          some (some rest)) ∧
      find ⟨["creates", "creat"], 0⟩ "creat" 5 = some (some "e") := by
  refine ⟨?_, ?_⟩
  · have hnewest : History.Newest ⟨["copy file ä to b", "copy file ä to c", "exit"], 0⟩
        "copy file ä" "copy file ä to c" :=
      ⟨by decide, ["copy file ä to b"], ["exit"], rfl, by decide⟩
    exact (find_recalls _ (by decide)).2.1 _ hnewest (by decide)
  · have hself : History.Newest ⟨["creates", "creat"], 0⟩ "creat" "creat" :=
      ⟨by decide, ["creates"], [], rfl, by decide⟩
    have hfind := (find_recalls ⟨["creates", "creat"], 0⟩ (by decide)).2.2.1 (Or.inl hself)
    have hshape : ofShape ⟨"creat".toList, []⟩ = some "e" := by decide +kernel
    rw [hshape] at hfind
    exact hfind

end Editor.Hint

end FileShell
