import FileShell.Proofs.Command.Slots

/-!
# Where a line of tokens ends

A line ends at its first end marker, or with the list. `SameLine` relates lists that have the same
words in front of that and end at the same offset. The validator reads no further, so it cannot
tell such lists apart (`SameLine.ofTokens_eq`): what follows an end marker is free, and a missing
end marker is as good as one where the last token stops. Main statement: `ofTokens_line_end`.
-/

namespace FileShell

namespace Token

/-- The byte offset of the token at an index when the token before the list stops at `stop`; past
the last token, where that token stops. -/
def offsetFrom (stop : Nat) : List Token → Nat → Nat
  | [], _ => stop
  | t :: _, 0 => t.offset
  | t :: tokens, index + 1 => offsetFrom t.stop tokens index

/-- Two lists of tokens spell the same line: they have the same words, and end at the same offset.
The token before them stops at `stop`. -/
inductive SameLine : Nat → List Token → List Token → Prop
  | ends {stop : Nat} {tokens others : List Token} : front? tokens = none → front? others = none →
      offsetFrom stop tokens 0 = offsetFrom stop others 0 → SameLine stop tokens others
  | cons {stop : Nat} {tokens others : List Token} (t : Token) : SameLine t.stop tokens others →
      SameLine stop (t :: tokens) (t :: others)

variable {stop : Nat} {tokens others : List Token} {e e' : Token}

theorem offsetFrom_eq (stop : Nat) (tokens : List Token) (index : Nat) :
    offsetFrom stop tokens index =
      (tokens[index]?.map Token.offset).getD ((tokens.getLast?.map Token.stop).getD stop) := by
  induction tokens generalizing stop index with
  | nil => simp [offsetFrom]
  | cons t tokens ih =>
    cases index with
    | zero => rfl
    | succ index =>
      rw [offsetFrom, ih, List.getElem?_cons_succ]
      cases tokens with
      | nil => simp
      | cons u tokens =>
        rw [List.getLast?_cons_cons, List.getLast?_eq_some_getLast (List.cons_ne_nil u tokens)]
        rfl

theorem offsetAt_eq_offsetFrom (tokens : List Token) (index : Nat) :
    offsetAt tokens index = offsetFrom 0 tokens index := by
  rw [offsetFrom_eq, offsetAt]
  cases tokens[index]? with
  | some t => rfl
  | none =>
    cases tokens.getLast? with
    | some t => rfl
    | none => rfl

namespace SameLine

theorem front?_eq (h : SameLine stop tokens others) : front? tokens = front? others := by
  cases h with
  | ends hfront hother hoffset => rw [hfront, hother]
  | cons t h => rfl

theorem offsetFrom_zero (h : SameLine stop tokens others) :
    offsetFrom stop tokens 0 = offsetFrom stop others 0 := by
  cases h with
  | ends hfront hother hoffset => exact hoffset
  | cons t h => rfl

/-- End markers at one offset end a line alike, whatever follows them. -/
theorem of_isEnd (he : e.isEnd = true) (he' : e'.isEnd = true) (hoffset : e.offset = e'.offset) :
    SameLine stop (e :: tokens) (e' :: others) :=
  .ends (by rw [front?, if_pos he]) (by rw [front?, if_pos he']) hoffset

/-- A list may end where its last token stops, or have an end marker there. -/
theorem of_nil (he : e.isEnd = true) (hoffset : e.offset = stop) : SameLine stop [e] [] :=
  .ends (by rw [front?, if_pos he]) rfl hoffset

theorem append (front : List Token)
    (h : SameLine (offsetFrom stop front front.length) tokens others) :
    SameLine stop (front ++ tokens) (front ++ others) := by
  induction front generalizing stop with
  | nil => exact h
  | cons t front ih => exact .cons t (ih h)

/-- Lists that spell the same line fill slots alike: either the same slot is the first one that is
not filled, for the same reason and at the same offset, or both fill all of them and go on alike. -/
theorem fill (h : SameLine stop tokens others) (slots : List Slot) :
    (∃ filled reason, Slot.fill slots tokens = .error (filled, reason) ∧
      Slot.fill slots others = .error (filled, reason) ∧
      offsetFrom stop tokens filled = offsetFrom stop others filled) ∨
    ∃ operands rest more, Slot.fill slots tokens = .ok (operands, rest) ∧
      Slot.fill slots others = .ok (operands, more) ∧ front? rest = front? more ∧
      offsetFrom stop tokens slots.length = offsetFrom stop others slots.length := by
  induction slots generalizing stop tokens others with
  | nil => exact Or.inr ⟨[], tokens, others, rfl, rfl, h.front?_eq, h.offsetFrom_zero⟩
  | cons slot slots ih =>
    cases htake : slot.take (front? tokens) with
    | error reason =>
      refine Or.inl ⟨0, reason, ?_, ?_, h.offsetFrom_zero⟩
      · simp only [Slot.fill, htake]
      · simp only [Slot.fill, ← h.front?_eq, htake]
    | ok captured =>
      cases h with
      | ends hfront hother hoffset =>
        -- Where the line ends there is no word for the slot.
        rw [hfront, Slot.take_eq_error (by simp)] at htake
        cases htake
      | @cons _ tokens others t h =>
        have hother : slot.take (front? (t :: others)) = .ok captured := htake
        rcases ih h with ⟨filled, reason, hfill, hfill', hoffset⟩ |
          ⟨operands, rest, more, hfill, hfill', hfront, hoffset⟩
        · refine Or.inl ⟨filled + 1, reason, ?_, ?_, hoffset⟩
          · simp only [Slot.fill, htake, List.tail_cons, hfill]
          · simp only [Slot.fill, hother, List.tail_cons, hfill']
        · refine Or.inr ⟨captured.toList ++ operands, rest, more, ?_, ?_, hfront, hoffset⟩
          · simp only [Slot.fill, htake, List.tail_cons, hfill]
          · simp only [Slot.fill, hother, List.tail_cons, hfill']

end SameLine

end Token

namespace Command

open Token

variable {tokens others : List Token}

theorem reject_congr {index : Nat} (h : offsetFrom 0 tokens index = offsetFrom 0 others index)
    (reason : Reason) (command : Option CommandKind) :
    reject tokens index reason command = reject others index reason command := by
  rw [reject, reject, offsetAt_eq_offsetFrom, offsetAt_eq_offsetFrom, h]

end Command

/-- Lists that spell the same line are the same command, or are rejected alike. -/
theorem Token.SameLine.ofTokens_eq {tokens others : List Token} (h : SameLine 0 tokens others)
    (strict : Bool) : Command.ofTokens strict tokens = Command.ofTokens strict others := by
  have hempty := Command.reject_congr h.offsetFrom_zero
  unfold Command.ofTokens
  cases h with
  | ends hfront hother hoffset => simp only [hfront, hother, hempty]
  | @cons _ tokens others t h =>
    have hfront : front? (t :: others) = front? (t :: tokens) := rfl
    rw [hfront]
    cases hhead : front? (t :: tokens) with
    | none => simp only [hempty]
    | some head =>
      cases hshape : Shape.ofKeyword? head.text with
      | none => simp only [hshape, hempty]
      | some shape =>
        simp only [hshape, List.tail_cons]
        rcases h.fill shape.slots with ⟨filled, reason, hfill, hfill', hoffset⟩ |
          ⟨operands, rest, more, hfill, hfill', hmore, hoffset⟩
        · have hreject := @Command.reject_congr (t :: tokens) (t :: others) (filled + 1) hoffset
          simp only [hfill, hfill', hreject]
        · have hreject :=
            @Command.reject_congr (t :: tokens) (t :: others) (shape.slots.length + 1) hoffset
          simp only [hfill, hfill', hmore, hreject]

namespace Command

open Token

/-- What a list of tokens comes to is decided by the tokens up to and including the first end
marker: anything may follow that. And it makes no difference whether a list is ended by an end
marker where its last token stops, or at offset zero if it has none. -/
theorem ofTokens_line_end (strict : Bool) :
    (∀ (front rest more : List Token) (e : Token), e.isEnd = true →
      ofTokens strict (front ++ e :: rest) = ofTokens strict (front ++ e :: more)) ∧
    ∀ (tokens : List Token) (e : Token), e.isEnd = true →
      e.offset = (tokens.getLast?.map Token.stop).getD 0 →
      ofTokens strict (tokens ++ [e]) = ofTokens strict tokens := by
  refine ⟨?_, ?_⟩
  · intro front rest more e he
    exact (SameLine.append front (.of_isEnd he he rfl)).ofTokens_eq strict
  · intro tokens e he hoffset
    have hstop : e.offset = offsetFrom 0 tokens tokens.length := by
      rw [hoffset, offsetFrom_eq, List.getElem?_eq_none (Nat.le_refl _)]
      rfl
    have hsame := SameLine.append tokens (.of_nil he hstop)
    rw [List.append_nil] at hsame
    exact hsame.ofTokens_eq strict

/-- A command that breaks off is rejected where its last token stops, with or without an end
marker, and behind an end marker strict mode finds no words. -/
theorem ofTokens_line_end_cut :
    (ofTokens false ([⟨.keyword, "copy", 2⟩, ⟨.filename, "file", 7⟩] ++ [⟨.endOfInput, "x", 11⟩]) =
        ofTokens false [⟨.keyword, "copy", 2⟩, ⟨.filename, "file", 7⟩] ∧
      ofTokens false [⟨.keyword, "copy", 2⟩, ⟨.filename, "file", 7⟩] =
        .error ⟨.expectedFilename none, 2, 11, some .copy⟩) ∧
    ofTokens true ([⟨.keyword, "exit", 0⟩] ++ ⟨.endOfInput, "", 9⟩ :: [⟨.filename, "now", 5⟩]) =
      ofTokens true ([⟨.keyword, "exit", 0⟩] ++ ⟨.endOfInput, "", 9⟩ :: []) :=
  ⟨⟨(ofTokens_line_end false).2 _ _ rfl rfl, rfl⟩, (ofTokens_line_end true).1 _ _ _ _ rfl⟩

end Command

end FileShell
