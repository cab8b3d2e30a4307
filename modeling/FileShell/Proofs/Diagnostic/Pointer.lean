import FileShell.Diagnostic
import FileShell.Proofs.Command.FirstMismatch
import FileShell.Proofs.Token.Tokenization

/-!
# What a report on a rejected line points at

The offset of a rejection is that of a word of the line, or the end of the line when nothing was
found (`Refused.found_or_end`). So the line can always be cut there, and the report shows the caret
under the first character of that word. Main statement: `render_ofRejection`.
-/

namespace FileShell

open Text Token

theorem pushn_empty (c : Char) (n : Nat) :
    "".pushn c n = String.ofList (List.replicate n c) := by
  rw [String.pushn_eq_repeat_push]
  induction n with
  | zero => rfl
  | succ n ih =>
    apply String.toList_injective
    simp [Nat.repeat, ih, List.replicate_succ']

namespace Command.Refused

variable {strict : Bool} {tokens : List Token} {r : Rejection} {line : String}

/-- All tokens in front of the one to blame are words. -/
theorem isEnd_before (h : Refused strict tokens r) {i : Nat} (hi : i < r.index) :
    ∃ t, tokens[i]? = some t ∧ t.isEnd = false := by
  have hslots : ∀ {kind : CommandKind} {count : Nat}, Selects tokens kind →
      Slot.Filled (kind.shape.slots.take count) tokens.tail →
      i < count + 1 → count ≤ kind.shape.slots.length →
      ∃ t, tokens[i]? = some t ∧ t.isEnd = false := by
    intro kind count hsel hfilled hlt hcount
    cases i with
    | zero =>
      obtain ⟨head, hfront, -⟩ := hsel
      exact ⟨head, Token.front?_eq_some_iff.mp hfront⟩
    | succ i =>
      have hlen : i < kind.shape.slots.length := by omega
      have hslot : kind.shape.slots[i]? = some kind.shape.slots[i] := List.getElem?_eq_getElem hlen
      obtain ⟨t, ht, haccepts⟩ := hfilled i _ (by rw [List.getElem?_take_of_lt (by omega), hslot])
      rw [List.getElem?_tail] at ht
      have hrole := Slot.tokenKind_ne_endOfInput (List.mem_of_getElem? hslot)
      exact ⟨t, ht, haccepts.isEnd_eq_false hrole⟩
  cases h with
  | empty => exact absurd hi (Nat.not_lt_zero i)
  | unknown => exact absurd hi (Nat.not_lt_zero i)
  | mismatch hsel hfilled hslot =>
    have hlt := (List.getElem?_eq_some_iff.mp hslot).1
    exact hslots hsel hfilled hi (Nat.le_of_lt hlt)
  | trailing hsel hfilled =>
    exact hslots hsel (by rw [List.take_length]; exact hfilled) hi (Nat.le_refl _)

/-- Of a line, a rejection blames either a word, which it has found, or the end of the line. -/
theorem found_or_end (h : Refused strict (tokenize line) r) :
    (∃ t, t ∈ scan 0 line.toList ∧ (tokenize line)[r.index]? = some t ∧ r.offset = t.offset ∧
      r.reason.found = some t.text) ∨
    (tokenize line)[r.index]? = some (endMarker (byteLength line.toList)) ∧
      r.offset = byteLength line.toList ∧ r.reason.found = none := by
  have hfound := h.found_eq
  have hoffset := h.offset_eq
  have hle : r.index ≤ (scan 0 line.toList).length := by
    by_contra hgt
    -- The end marker would stand in front of the token to blame.
    obtain ⟨t, ht, hend⟩ := h.isEnd_before (Nat.lt_of_not_le hgt)
    rw [tokenize, List.getElem?_concat_length, Option.some.injEq] at ht
    rw [← ht] at hend
    cases hend
  rcases Nat.lt_or_eq_of_le hle with hlt | heq
  · have ht : (tokenize line)[r.index]? = some (scan 0 line.toList)[r.index] := by
      rw [tokenize, List.getElem?_append_left hlt, List.getElem?_eq_getElem hlt]
    have hmem : (scan 0 line.toList)[r.index] ∈ scan 0 line.toList := List.getElem_mem hlt
    refine Or.inl ⟨_, hmem, ht, ?_, ?_⟩
    · rw [hoffset, offsetAt, ht]
    · rw [hfound, ht]
      simp [Option.filter, isEnd_of_mem_scan hmem]
  · have ht : (tokenize line)[r.index]? = some (endMarker (byteLength line.toList)) := by
      rw [tokenize, heq, List.getElem?_concat_length]
    refine Or.inr ⟨ht, ?_, ?_⟩
    · rw [hoffset, offsetAt, ht]
      rfl
    · rw [hfound, ht]
      rfl

/-- The fixed words that a reason can name. -/
theorem expected_mem (h : Refused strict tokens r) {text : String}
    (htext : r.reason.expected = some text) : text = "file" ∨ text = "to" := by
  obtain ⟨hmarker, hconnector, -⟩ := h.expects
  have hslot : ∃ (kind : CommandKind) (role : TokenKind),
      Slot.literal role text ∈ kind.shape.slots := by
    cases hreason : r.reason with
    | expectedMarker word found =>
      obtain ⟨kind, role, -, -, hsome⟩ := hmarker word found hreason
      rw [hreason] at htext
      cases htext
      exact ⟨kind, role, List.mem_of_getElem? hsome⟩
    | expectedConnector word found =>
      obtain ⟨kind, -, hsome⟩ := hconnector word found hreason
      rw [hreason] at htext
      cases htext
      exact ⟨kind, .connector, List.mem_of_getElem? hsome⟩
    | _ =>
      rw [hreason] at htext
      cases htext
  obtain ⟨kind, role, hmem⟩ := hslot
  rcases kind.eq_of_literal_mem hmem with ⟨-, rfl⟩ | ⟨-, rfl⟩
  · exact Or.inl rfl
  · exact Or.inr rfl

/-- The message has no caret when nothing was found. -/
theorem caret_notMem_message (h : Refused strict tokens r) (hnone : r.reason.found = none) :
    '^' ∉ r.reason.message.toList := by
  have hexpected : ∀ text, r.reason.expected = some text → text = "file" ∨ text = "to" :=
    fun text => h.expected_mem
  cases hreason : r.reason with
  | empty => decide +kernel
  | unknownCommand word => simp [hreason, Reason.found] at hnone
  | trailing word => simp [hreason, Reason.found] at hnone
  | expectedFilename found =>
    rw [hreason] at hnone
    cases hnone
    decide +kernel
  | expectedMarker text found =>
    rw [hreason] at hnone
    cases hnone
    rcases hexpected text (by rw [hreason]; rfl) with rfl | rfl <;> decide +kernel
  | expectedConnector text found =>
    rw [hreason] at hnone
    cases hnone
    rcases hexpected text (by rw [hreason]; rfl) with rfl | rfl <;> decide +kernel

end Command.Refused

namespace Diagnostic

theorem hint_ofRejection (r : Rejection) : (ofRejection r).hint = none ∨
    ∃ kind : CommandKind, (ofRejection r).hint = some ("usage: " ++ kind.shape.usage) := by
  unfold ofRejection
  split
  · exact Or.inl rfl
  · exact Or.inl rfl
  · exact Or.inl rfl
  · next kind _ _ _ => exact Or.inr ⟨kind, rfl⟩

theorem caret_notMem_hintLine (r : Rejection) : '^' ∉ (ofRejection r).hintLine.toList := by
  rcases hint_ofRejection r with hnone | ⟨kind, hsome⟩
  · simp [hintLine, hnone]
  · rw [hintLine, hsome]
    cases kind <;> decide +kernel

/-- A word of a line begins inside the line, where the line can be cut, and a caret shows it. -/
theorem pointer?_of_word {line : String} {before word after : List Char}
    (hline : line.toList = before ++ word ++ after) (hword : word ≠ []) :
    byteLength before < byteLength line.toList ∧
    cutAt line.toList (byteLength before) = some (before, word ++ after) ∧
    pointer? line (byteLength before) =
      some ("\n  " ++ line ++ "\n  " ++
        String.ofList (List.replicate before.length ' ') ++ "^") := by
  have hpos : byteLength word ≠ 0 := fun hzero => hword (byteLength_eq_zero hzero)
  have hlt : byteLength before < byteLength line.toList := by
    rw [hline, byteLength_append, byteLength_append]
    omega
  have hcut : cutAt line.toList (byteLength before) = some (before, word ++ after) := by
    rw [hline, List.append_assoc, cutAt_byteLength]
  refine ⟨hlt, hcut, ?_⟩
  rw [pointer?, if_pos hlt, hcut, ← pushn_empty]
  rfl

theorem pointer?_of_end (line : String) :
    pointer? line (byteLength line.toList) =
      some ("\n  at position " ++ toString (byteLength line.toList) ++ " (end of input)") := by
  rw [pointer?, if_neg (Nat.lt_irrefl _)]

theorem pointer?_of_mem_scan {line : String} {t : Token} (ht : t ∈ scan 0 line.toList) :
    t.offset < byteLength line.toList ∧
    ∃ before after, cutAt line.toList t.offset = some (before, t.text.toList ++ after) ∧
      pointer? line t.offset =
        some ("\n  " ++ line ++ "\n  " ++
          String.ofList (List.replicate before.length ' ') ++ "^") := by
  have hcuts := cuts_scan 0 line.toList
  obtain ⟨before, after, hline, hplace, -⟩ := hcuts.placed t ht
  obtain ⟨c, more, hword, -⟩ := (hcuts.formed t ht).startsWord
  have hne : t.text.toList ≠ [] := by
    rw [hword]
    exact List.cons_ne_nil c more
  have hstart : t.offset = byteLength before := by omega
  obtain ⟨hlt, hcut, hpointer⟩ := pointer?_of_word hline hne
  rw [hstart]
  exact ⟨hlt, before, after, hcut, hpointer⟩

/-- The place of a rejection can always be shown. -/
theorem exists_pointer {strict : Bool} {line : String} {r : Rejection}
    (h : Command.Refused strict (tokenize line) r) :
    ∃ pointer, pointer? line r.offset = some pointer := by
  rcases h.found_or_end with ⟨t, hmem, -, hoffset, -⟩ | ⟨-, hoffset, -⟩
  · obtain ⟨-, before, after, -, hpointer⟩ := pointer?_of_mem_scan hmem
    rw [hoffset]
    exact ⟨_, hpointer⟩
  · rw [hoffset]
    exact ⟨_, pointer?_of_end line⟩

/-- The report has no caret when nothing was found. -/
theorem caret_notMem_report {strict : Bool} {tokens : List Token} {r : Rejection}
    (h : Command.Refused strict tokens r) (hnone : r.reason.found = none) (n : Nat) :
    '^' ∉ ((ofRejection r).headline ++ ("\n  at position " ++ toString n ++ " (end of input)") ++
      (ofRejection r).hintLine).toList := by
  have hmessage : '^' ∉ (ofRejection r).message.toList := h.caret_notMem_message hnone
  have htitle : '^' ∉ Trouble.form.title.toList := by decide +kernel
  have hhint := caret_notMem_hintLine r
  have hdigits : '^' ∉ (toString n).toList := by
    intro hcaret
    have hdigit : '^'.isDigit = true := by
      apply Nat.isDigit_of_mem_toDigits (b := 10) (by omega) (by omega)
      simpa using hcaret
    exact absurd hdigit (by decide)
  simp only [headline, String.toList_append, List.mem_append, not_or]
  exact ⟨⟨⟨⟨htitle, by decide +kernel⟩, hmessage⟩, ⟨by decide +kernel, hdigits⟩,
    by decide +kernel⟩, hhint⟩

/-- A rejection of a line blames one of its tokens, and the report shows that place. What has been
found is a word of the line: it stands at the offset, and the caret stands under its first
character, behind as many blanks as there are characters before the word. When nothing was found,
the report names the end of the line instead. -/
theorem render_ofRejection {strict : Bool} {line : String} {r : Rejection}
    (h : Command.ofLine strict line = .error r) :
    r.index < (tokenize line).length ∧
    ∃ pointer, pointer? line r.offset = some pointer ∧
      (ofRejection r).render? line =
        some ((ofRejection r).headline ++ pointer ++ (ofRejection r).hintLine) ∧
      (∀ word, r.reason.found = some word →
        r.offset < byteLength line.toList ∧
        ∃ before after, cutAt line.toList r.offset = some (before, word.toList ++ after) ∧
          pointer = "\n  " ++ line ++ "\n  " ++ String.ofList (List.replicate before.length ' ') ++
            "^") ∧
      (r.reason.found = none →
        r.offset = byteLength line.toList ∧
        pointer = "\n  at position " ++ toString (byteLength line.toList) ++ " (end of input)" ∧
        '^' ∉ ((ofRejection r).headline ++ pointer ++ (ofRejection r).hintLine).toList) := by
  have hrefused := Command.Refused.of_ofTokens h
  have hrender : ∀ pointer, pointer? line r.offset = some pointer →
      (ofRejection r).render? line =
        some ((ofRejection r).headline ++ pointer ++ (ofRejection r).hintLine) := by
    intro pointer hpointer
    have hposition : (ofRejection r).position = some r.offset := rfl
    rw [render?, hposition]
    simp only [hpointer, Option.map_some]
  rcases hrefused.found_or_end with ⟨t, hmem, ht, hoffset, hfound⟩ | ⟨ht, hoffset, hfound⟩
  · obtain ⟨hlt, before, after, hcut, hpointer⟩ := pointer?_of_mem_scan hmem
    rw [← hoffset] at hlt hcut hpointer
    refine ⟨(List.getElem?_eq_some_iff.mp ht).1, _, hpointer, hrender _ hpointer, ?_, ?_⟩
    · intro word hsome
      rw [hfound, Option.some.injEq] at hsome
      subst hsome
      exact ⟨hlt, before, after, hcut, rfl⟩
    · intro hnone
      rw [hfound] at hnone
      cases hnone
  · have hpointer := pointer?_of_end line
    rw [← hoffset] at hpointer
    refine ⟨(List.getElem?_eq_some_iff.mp ht).1, _, hpointer, hrender _ hpointer, ?_, ?_⟩
    · intro word hsome
      rw [hfound] at hsome
      cases hsome
    · intro _
      exact ⟨hoffset, by rw [hoffset], caret_notMem_report hrefused hfound _⟩

/-- A letter of two bytes moves the offset by two, and the caret by one. -/
theorem render_ofRejection_umlaut :
    Command.ofLine false "copy file ä b" =
      .error ⟨.expectedConnector "to" (some "b"), 3, 13, some .copy⟩ ∧
    (ofRejection ⟨.expectedConnector "to" (some "b"), 3, 13, some .copy⟩).render? "copy file ä b" =
      some ("Syntax error: expected connector 'to', found 'b'\n  copy file ä b\n" ++
        "              ^\n  hint: usage: copy file <name> to <name>") := by
  have hline : Command.ofLine false "copy file ä b" =
      .error ⟨.expectedConnector "to" (some "b"), 3, 13, some .copy⟩ := by
    with_unfolding_all rfl
  obtain ⟨-, pointer, -, hrender, hword, -⟩ := render_ofRejection hline
  obtain ⟨-, before, after, hcut, hpointer⟩ := hword "b" rfl
  have hbefore : cutAt "copy file ä b".toList 13 = some ("copy file ä ".toList, ['b']) := by decide
  rw [hbefore] at hcut
  cases hcut
  refine ⟨hline, ?_⟩
  rw [hrender, hpointer]
  decide +kernel

end Diagnostic

end FileShell
