import FileShell.Editor.Expectation
import FileShell.Proofs.Diagnostic.Pointer

/-!
# What is expected and what is refused

The editor only counts the words of a text to find the slot that is expected next, while a command
is read by matching the words with the slots one by one. Where a text is refused because it ends
too early, its words number as many as the index of the rejection (`Refused.index_eq_length`), so
that both stop at the same slot. Main statement: `after_agrees`.
-/

namespace FileShell

open Token

namespace Token

variable {line : String}

/-- All tokens of a line but the last one are words. -/
theorem lt_length_scan_iff {i : Nat} : i < (scan 0 line.toList).length ↔
    ∃ t, (tokenize line)[i]? = some t ∧ t.isEnd = false := by
  constructor
  · intro hi
    refine ⟨(scan 0 line.toList)[i], ?_, isEnd_of_mem_scan (List.getElem_mem hi)⟩
    rw [tokenize, List.getElem?_append_left hi, List.getElem?_eq_getElem hi]
  · rintro ⟨t, ht, hend⟩
    by_contra hi
    rw [tokenize, List.getElem?_append_right (by omega)] at ht
    have ht : t = endMarker _ := List.mem_singleton.mp (List.mem_of_getElem? ht)
    rw [ht] at hend
    cases hend

theorem front?_tokenize (line : String) :
    front? (tokenize line) = (scan 0 line.toList).head? := by
  cases hscan : scan 0 line.toList with
  | nil =>
    rw [tokenize, hscan]
    rfl
  | cons t rest =>
    have ht : t.isEnd = false := isEnd_of_mem_scan (by rw [hscan]; exact List.mem_cons_self)
    rw [tokenize, hscan, List.cons_append, front?, ht]
    rfl

end Token

/-- A word that does not fit its slot is not the first one, and not left over. -/
theorem Slot.mismatch_ne (slot : Slot) (found : Option String) :
    slot.mismatch found ≠ .empty ∧
      ∀ word, slot.mismatch found ≠ .unknownCommand word ∧
        slot.mismatch found ≠ .trailing word := by
  unfold mismatch
  split
  · split <;> simp
  · simp

/-- A rejection that has found nothing is at the end of the line, behind all of its words. -/
theorem Command.Refused.index_eq_length {strict : Bool} {line : String} {r : Rejection}
    (h : Refused strict (tokenize line) r) (hfound : r.reason.found = none) :
    r.index = (scan 0 line.toList).length := by
  rcases h.found_or_end with ⟨t, -, -, -, hsome⟩ | ⟨hmarker, -, -⟩
  · rw [hfound] at hsome
    cases hsome
  · have hge : ¬ r.index < (scan 0 line.toList).length := by
      intro hlt
      obtain ⟨t, ht, hend⟩ := lt_length_scan_iff.mp hlt
      rw [hmarker] at ht
      cases ht
      cases hend
    have hle : ¬ (scan 0 line.toList).length < r.index := by
      intro hlt
      have hword := lt_length_scan_iff.mpr (h.isEnd_before hlt)
      omega
    omega

namespace Editor.Expectation

open Command

variable {text : String} {kind : CommandKind}

theorem after_of_scan_nil (h : scan 0 text.toList = []) : after text = .keyword := by
  rw [after, words_tokenize, h]

theorem after_ne_keyword (h : scan 0 text.toList ≠ []) : after text ≠ .keyword := by
  obtain ⟨head, rest, hscan⟩ := List.exists_cons_of_ne_nil h
  rw [after, words_tokenize, hscan]
  dsimp only
  split
  · exact fun hkeyword => by cases hkeyword
  · next shape _ =>
    unfold ofSlot
    split
    · exact fun hkeyword => by cases hkeyword
    · exact fun hkeyword => by cases hkeyword
    · exact fun hkeyword => by cases hkeyword

theorem after_eq_keyword_iff : after text = .keyword ↔ front? (tokenize text) = none := by
  rw [front?_tokenize, List.head?_eq_none_iff]
  constructor
  · intro hkeyword
    by_contra hscan
    exact after_ne_keyword hscan hkeyword
  · exact after_of_scan_nil

/-- Behind a keyword the slot expected is found by counting. -/
theorem after_of_words {head : Token} {rest : List Token}
    (hwords : words (tokenize text) = head :: rest) (hkey : head.text = kind.shape.keyword) :
    after text = ofSlot kind.shape.slots[rest.length]? := by
  have hshape : Shape.ofKeyword? head.text = some kind.shape :=
    Shape.ofKeyword?_eq_some_iff.mpr ⟨kind, rfl, hkey⟩
  simp only [after, hwords, hshape]

theorem after_of_selects (h : Selects (tokenize text) kind) :
    after text = ofSlot kind.shape.slots[(scan 0 text.toList).length - 1]? := by
  obtain ⟨head, hfront, hkey⟩ := h
  rw [front?_tokenize, List.head?_eq_some_iff] at hfront
  obtain ⟨rest, hscan⟩ := hfront
  have hwords : words (tokenize text) = head :: rest := by rw [words_tokenize, hscan]
  rw [after_of_words hwords hkey, hscan, List.length_cons, Nat.add_sub_cancel]

theorem after_of_unknown {head : Token} (hfront : front? (tokenize text) = some head)
    (hword : ∀ kind : CommandKind, head.text ≠ kind.shape.keyword) : after text = .nothing := by
  rw [front?_tokenize, List.head?_eq_some_iff] at hfront
  obtain ⟨rest, hscan⟩ := hfront
  have hshape : Shape.ofKeyword? head.text = none := Shape.ofKeyword?_eq_none_iff.mpr hword
  rw [after, words_tokenize, hscan]
  simp only [hshape]

/-- Behind the last slot nothing is expected. -/
theorem after_of_filled (h : Selects (tokenize text) kind)
    (hfilled : Slot.Filled kind.shape.slots (tokenize text).tail) : after text = .nothing := by
  have hlen : kind.shape.slots.length ≤ (scan 0 text.toList).length - 1 := by
    by_contra hlt
    have hi : (scan 0 text.toList).length - 1 < kind.shape.slots.length := by omega
    -- The slot to which the count leads would be filled by a word that has not been counted.
    obtain ⟨t, ht, haccepts⟩ := hfilled _ _ (List.getElem?_eq_getElem hi)
    have hrole := Slot.tokenKind_ne_endOfInput (List.getElem_mem hi)
    rw [List.getElem?_tail] at ht
    have hword := lt_length_scan_iff.mpr ⟨t, ht, haccepts.isEnd_eq_false hrole⟩
    omega
  rw [after_of_selects h, List.getElem?_eq_none hlen]
  rfl

/-- The slot that a text lacks when it ends too early is the one expected. -/
theorem after_of_found_none {strict : Bool} {r : Rejection} {slot : Slot}
    (h : Refused strict (tokenize text) r) (hfound : r.reason.found = none)
    (hcommand : r.command = some kind) (hslot : kind.shape.slots[r.index - 1]? = some slot) :
    after text = ofSlot (some slot) := by
  rw [after_of_selects (h.selects hcommand), ← h.index_eq_length hfound, hslot]

/-- What is expected after a text agrees with what the text is read as: a keyword exactly if it is
refused because it is empty; nothing if it is a command, or if it is refused for its first word or
for a word that is left over; and if the text ends where a fixed word or a file name had to stand,
just that. -/
theorem after_agrees (strict : Bool) (text : String) :
    (after text = .keyword ↔ ∃ r, ofLine strict text = .error r ∧ r.reason = .empty) ∧
    (∀ c, ofLine strict text = .ok c → after text = .nothing) ∧
    ∀ r, ofLine strict text = .error r →
      (∀ word, r.reason = .unknownCommand word ∨ r.reason = .trailing word →
        after text = .nothing) ∧
      (∀ fixed, r.reason = .expectedMarker fixed none ∨ r.reason = .expectedConnector fixed none →
        after text = .literal fixed) ∧
      (r.reason = .expectedFilename none → after text = .filename) := by
  refine ⟨?_, ?_, ?_⟩
  · rw [after_eq_keyword_iff]
    constructor
    · intro hfront
      refine ⟨reject (tokenize text) 0 .empty none, ?_, rfl⟩
      simp only [ofLine, ofTokens, hfront]
    · rintro ⟨r, hline, hreason⟩
      cases Refused.of_ofTokens hline with
      | empty hfront => exact hfront
      | unknown => cases hreason
      | @mismatch _ _ slot => exact absurd hreason (slot.mismatch_ne _).1
      | trailing => cases hreason
  · intro c hline
    obtain ⟨⟨hsel, hfilled, -⟩, -⟩ := ofTokens_eq_ok_iff.mp hline
    exact after_of_filled hsel hfilled
  · intro r hline
    have hrefused := Refused.of_ofTokens hline
    obtain ⟨hmarker, hconnector, hfilename⟩ := hrefused.expects
    refine ⟨?_, ?_, ?_⟩
    · intro word hreason
      cases hrefused with
      | empty => rcases hreason with hreason | hreason <;> cases hreason
      | unknown hfront hword => exact after_of_unknown hfront hword
      | @mismatch _ _ slot =>
        obtain ⟨hunknown, htrailing⟩ := (slot.mismatch_ne _).2 word
        rcases hreason with hreason | hreason
        · exact absurd hreason hunknown
        · exact absurd hreason htrailing
      | trailing hsel hfilled => exact after_of_filled hsel hfilled
    · rintro fixed (hreason | hreason)
      · obtain ⟨kind, role, hcommand, -, hslot⟩ := hmarker fixed none hreason
        exact after_of_found_none hrefused (by rw [hreason]; rfl) hcommand hslot
      · obtain ⟨kind, hcommand, hslot⟩ := hconnector fixed none hreason
        exact after_of_found_none hrefused (by rw [hreason]; rfl) hcommand hslot
    · intro hreason
      obtain ⟨kind, hcommand, hslot⟩ := hfilename none hreason
      exact after_of_found_none hrefused (by rw [hreason]; rfl) hcommand hslot

end Editor.Expectation

end FileShell
