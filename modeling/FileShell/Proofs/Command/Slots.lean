import FileShell.Command.Validation
import Mathlib.Data.List.Basic

/-!
# Filling slots

When a token fills a slot (`Slot.Accepts`), when a list of tokens fills a list of slots
(`Slot.Filled`), and what `Slot.fill` gives in either case. `fill_outcome`
describes its results by the tokens at each index.
-/

namespace FileShell

namespace Token

/-- The token at the front is the first one, unless that is an end marker. -/
theorem front?_eq_filter (tokens : List Token) :
    front? tokens = tokens[0]?.filter fun t => !t.isEnd := by
  cases tokens with
  | nil => rfl
  | cons t tokens => cases h : t.isEnd <;> simp [front?, Option.filter, h]

theorem front?_eq_some_iff {tokens : List Token} {t : Token} :
    front? tokens = some t ↔ tokens[0]? = some t ∧ t.isEnd = false := by
  rw [front?_eq_filter, Option.filter_eq_some_iff]
  simp

theorem front?_eq_none_iff {tokens : List Token} :
    front? tokens = none ↔ ∀ t, tokens[0]? = some t → t.isEnd = true := by
  rw [front?_eq_filter, Option.filter_eq_none_iff]
  simp

end Token

/-- The fixed words of commands. -/
theorem CommandKind.eq_of_literal_mem {kind : CommandKind} {role : TokenKind} {text : String}
    (h : Slot.literal role text ∈ kind.shape.slots) :
    role = .filename ∧ text = "file" ∨ role = .connector ∧ text = "to" := by
  have hslots : ∀ slot ∈ kind.shape.slots,
      slot = .operand ∨ slot = .fileMarker ∨ slot = .toConnector := by
    cases kind <;> decide
  rcases hslots _ h with hoperand | hfile | hto
  · cases hoperand
  · cases hfile
    exact Or.inl ⟨rfl, rfl⟩
  · cases hto
    exact Or.inr ⟨rfl, rfl⟩

namespace Slot

/-- Whether a token fills a slot. -/
def Accepts : Slot → Token → Prop
  | .literal kind text, t => t.kind = kind ∧ t.text = text
  | .operand, t => t.kind = .filename

/-- The kind of the token that fills a slot. -/
def tokenKind : Slot → TokenKind
  | .literal kind _ => kind
  | .operand => .filename

/-- The reason to refuse what was found at a slot. -/
def mismatch (slot : Slot) (found : Option String) : Reason :=
  match slot with
  | .literal kind text =>
    if kind = .connector then .expectedConnector text found else .expectedMarker text found
  | .operand => .expectedFilename found

/-- The operand that a token which fills a slot contributes. -/
def captured (slot : Slot) (t : Token) : Option String :=
  if slot.isOperand then some t.text else none

/-- The texts of the tokens at the operand slots, in order. -/
def captures (slots : List Slot) (tokens : List Token) : List String :=
  (slots.zip tokens).filterMap fun (slot, t) => slot.captured t

/-- Whether the tokens begin with one for each slot. -/
def Filled (slots : List Slot) (tokens : List Token) : Prop :=
  ∀ (i : Nat) (slot : Slot), slots[i]? = some slot → ∃ t, tokens[i]? = some t ∧ slot.Accepts t

theorem Accepts.kind_eq {slot : Slot} {t : Token} (h : slot.Accepts t) :
    t.kind = slot.tokenKind := by
  cases slot with
  | literal kind text => exact h.1
  | operand => exact h

theorem Accepts.isEnd_eq_false {slot : Slot} {t : Token} (h : slot.Accepts t)
    (hslot : slot.tokenKind ≠ .endOfInput) : t.isEnd = false := by
  have hkind : t.kind ≠ .endOfInput := by
    rw [h.kind_eq]
    exact hslot
  simpa [Token.isEnd] using hkind

/-- No slot of a command is made for end markers. -/
theorem tokenKind_ne_endOfInput {kind : CommandKind} {slot : Slot}
    (h : slot ∈ kind.shape.slots) : slot.tokenKind ≠ .endOfInput := by
  revert slot
  cases kind <;> decide

theorem found_mismatch (slot : Slot) (found : Option String) :
    (slot.mismatch found).found = found := by
  cases slot with
  | literal kind text =>
    rw [mismatch]
    split <;> rfl
  | operand => rfl

theorem filled_nil (tokens : List Token) : Filled [] tokens := by
  intro i slot h
  simp at h

theorem filled_cons_iff {slot : Slot} {slots : List Slot} {tokens : List Token} :
    Filled (slot :: slots) tokens ↔
      (∃ t, tokens[0]? = some t ∧ slot.Accepts t) ∧ Filled slots tokens.tail := by
  constructor
  · intro h
    refine ⟨h 0 slot rfl, ?_⟩
    intro i other hother
    simpa using h (i + 1) other (by simpa using hother)
  · rintro ⟨hfirst, hrest⟩ i other hother
    cases i with
    | zero =>
      simp only [List.getElem?_cons_zero, Option.some.injEq] at hother
      subst hother
      exact hfirst
    | succ i =>
      simp only [List.getElem?_cons_succ] at hother
      simpa using hrest i other hother

theorem Filled.length_le {slots : List Slot} {tokens : List Token} (h : Filled slots tokens) :
    slots.length ≤ tokens.length := by
  by_contra hlt
  have hlt : tokens.length < slots.length := by omega
  obtain ⟨t, ht, -⟩ := h tokens.length _ (List.getElem?_eq_getElem hlt)
  simp at ht

/-- Tokens that fill slots do so with others behind them, as long as there are enough of them. -/
theorem filled_append_iff {slots : List Slot} {tokens : List Token} (more : List Token)
    (hlen : slots.length ≤ tokens.length) :
    Filled slots (tokens ++ more) ↔ Filled slots tokens := by
  have hget : ∀ (i : Nat) (slot : Slot), slots[i]? = some slot →
      (tokens ++ more)[i]? = tokens[i]? := by
    intro i slot hslot
    have hi := (List.getElem?_eq_some_iff.mp hslot).1
    exact List.getElem?_append_left (by omega)
  constructor
  · intro h i slot hslot
    rw [← hget i slot hslot]
    exact h i slot hslot
  · intro h i slot hslot
    rw [hget i slot hslot]
    exact h i slot hslot

theorem Filled.append {slots more : List Slot} {tokens rest : List Token}
    (h : Filled slots tokens) (hmore : Filled more rest) (hlen : tokens.length = slots.length) :
    Filled (slots ++ more) (tokens ++ rest) := by
  intro i slot hslot
  by_cases hi : i < slots.length
  · rw [List.getElem?_append_left hi] at hslot
    rw [List.getElem?_append_left (by omega)]
    exact h i slot hslot
  · rw [List.getElem?_append_right (by omega)] at hslot
    rw [List.getElem?_append_right (by omega), hlen]
    exact hmore _ slot hslot

theorem captures_cons (slot : Slot) (slots : List Slot) (t : Token) (tokens : List Token) :
    captures (slot :: slots) (t :: tokens) =
      (slot.captured t).toList ++ captures slots tokens := by
  cases h : slot.captured t <;> simp [captures, h]

/-- Tokens behind others are captured by the slots behind theirs. -/
theorem captures_append (slots : List Slot) (tokens rest : List Token) :
    captures slots (tokens ++ rest) =
      captures slots tokens ++ captures (slots.drop tokens.length) rest := by
  induction tokens generalizing slots with
  | nil => simp [captures]
  | cons t tokens ih =>
    cases slots with
    | nil => rfl
    | cons slot slots =>
      rw [List.cons_append, captures_cons, ih, captures_cons, List.append_assoc,
        List.length_cons, List.drop_succ_cons]

/-- Each operand slot that is filled contributes one operand. -/
theorem length_captures {slots : List Slot} {tokens : List Token} (h : Filled slots tokens) :
    (captures slots tokens).length = (slots.filter Slot.isOperand).length := by
  induction slots generalizing tokens with
  | nil => rfl
  | cons slot slots ih =>
    obtain ⟨⟨t, ht, -⟩, hrest⟩ := filled_cons_iff.mp h
    cases tokens with
    | nil => simp at ht
    | cons u tokens =>
      have hlen := ih hrest
      rw [List.tail_cons] at hlen
      rw [captures_cons, List.length_append, hlen]
      cases hslot : slot.isOperand
      · simp [captured, hslot]
      · simp [captured, hslot, Nat.add_comm]

theorem take_eq_ok {slot : Slot} {t : Token} (h : slot.Accepts t) :
    slot.take (some t) = .ok (slot.captured t) := by
  cases slot with
  | literal kind text => simp [take, captured, isOperand, h.1, h.2]
  | operand =>
    have hkind : t.kind = .filename := h
    simp [take, captured, isOperand, hkind]

theorem take_eq_error {slot : Slot} {found : Option Token}
    (h : ∀ t, found = some t → ¬ slot.Accepts t) :
    slot.take found = .error (slot.mismatch (found.map Token.text)) := by
  cases slot with
  | literal kind text =>
    have hany : ¬ (found.any fun t => t.kind = kind ∧ t.text = text) = true := by
      intro hany
      cases found with
      | none => simp at hany
      | some t => exact h t rfl (by simpa [Accepts] using hany)
    rw [take, if_neg hany, mismatch]
    split <;> rfl
  | operand =>
    cases found with
    | none => rfl
    | some t =>
      have hkind : ¬ t.kind = .filename := h t rfl
      simp [take, mismatch, hkind]

theorem fill_cons_of_accepts {slot : Slot} {slots : List Slot} {t : Token} {tokens : List Token}
    (h : slot.Accepts t) (hslot : slot.tokenKind ≠ .endOfInput) :
    fill (slot :: slots) (t :: tokens) =
      match fill slots tokens with
      | .error (filled, reason) => .error (filled + 1, reason)
      | .ok (operands, rest) => .ok ((slot.captured t).toList ++ operands, rest) := by
  have hfront : Token.front? (t :: tokens) = some t := by
    rw [Token.front?, if_neg (by simp [h.isEnd_eq_false hslot])]
  rw [fill, hfront, take_eq_ok h]
  rfl

theorem fill_cons_of_not_accepts {slot : Slot} {slots : List Slot} {tokens : List Token}
    (h : ∀ t, tokens[0]? = some t → ¬ slot.Accepts t) :
    fill (slot :: slots) tokens =
      .error (0, slot.mismatch ((Token.front? tokens).map Token.text)) := by
  have hfront : ∀ t, Token.front? tokens = some t → ¬ slot.Accepts t := fun t ht =>
    h t (Token.front?_eq_some_iff.mp ht).1
  rw [fill, take_eq_error hfront]

/-- Either the tokens begin with one for each slot, or there is a first slot that the token at its
index does not fill. The first case gives the operands and the tokens after the last slot, and the
second one the number of slots before the mismatch. -/
theorem fill_outcome {slots : List Slot} (hslots : ∀ slot ∈ slots, slot.tokenKind ≠ .endOfInput)
    (tokens : List Token) :
    (Filled slots tokens ∧
      fill slots tokens = .ok (captures slots tokens, tokens.drop slots.length)) ∨
    ∃ filled slot, Filled (slots.take filled) tokens ∧ slots[filled]? = some slot ∧
      (∀ t, tokens[filled]? = some t → ¬ slot.Accepts t) ∧
      fill slots tokens = .error (filled,
        slot.mismatch ((Token.front? (tokens.drop filled)).map Token.text)) := by
  -- Induction on the slots: the first one decides unless it is filled.
  induction slots generalizing tokens with
  | nil => exact Or.inl ⟨filled_nil tokens, rfl⟩
  | cons slot slots ih =>
    have hslot : slot.tokenKind ≠ .endOfInput := hslots slot (by simp)
    have ih := ih fun other hother => hslots other (by simp [hother])
    by_cases hfits : ∃ t, tokens[0]? = some t ∧ slot.Accepts t
    · have hfirst := hfits
      obtain ⟨t, ht, haccepts⟩ := hfits
      cases tokens with
      | nil => simp at ht
      | cons u tokens =>
        simp only [List.getElem?_cons_zero, Option.some.injEq] at ht
        subst ht
        rcases ih tokens with ⟨hfilled, heq⟩ | ⟨filled, other, hfilled, hother, hnot, heq⟩
        · refine Or.inl ⟨filled_cons_iff.mpr ⟨hfirst, hfilled⟩, ?_⟩
          rw [fill_cons_of_accepts haccepts hslot, heq, captures_cons]
          rfl
        · refine Or.inr ⟨filled + 1, other, filled_cons_iff.mpr ⟨hfirst, hfilled⟩,
            by simpa using hother, by simpa using hnot, ?_⟩
          rw [fill_cons_of_accepts haccepts hslot, heq]
          rfl
    · have hnot : ∀ t, tokens[0]? = some t → ¬ slot.Accepts t :=
        fun t ht haccepts => hfits ⟨t, ht, haccepts⟩
      exact Or.inr ⟨0, slot, filled_nil tokens, rfl, hnot, fill_cons_of_not_accepts hnot⟩

theorem fill_eq_ok {slots : List Slot} (hslots : ∀ slot ∈ slots, slot.tokenKind ≠ .endOfInput)
    {tokens : List Token} (h : Filled slots tokens) :
    fill slots tokens = .ok (captures slots tokens, tokens.drop slots.length) := by
  rcases fill_outcome hslots tokens with ⟨-, hok⟩ | ⟨filled, slot, -, hslot, hnot, -⟩
  · exact hok
  · obtain ⟨t, ht, haccepts⟩ := h filled slot hslot
    exact absurd haccepts (hnot t ht)

/-- There is only one first mismatch. -/
theorem fill_eq_error {slots : List Slot}
    (hslots : ∀ slot ∈ slots, slot.tokenKind ≠ .endOfInput) {tokens : List Token} {filled : Nat}
    {slot : Slot} (h : Filled (slots.take filled) tokens) (hslot : slots[filled]? = some slot)
    (hnot : ∀ t, tokens[filled]? = some t → ¬ slot.Accepts t) :
    fill slots tokens = .error (filled,
      slot.mismatch ((Token.front? (tokens.drop filled)).map Token.text)) := by
  rcases fill_outcome hslots tokens with ⟨hall, -⟩ | ⟨other, found, hother, hfound, hmiss, herror⟩
  · obtain ⟨t, ht, haccepts⟩ := hall filled slot hslot
    exact absurd haccepts (hnot t ht)
  · rcases Nat.lt_trichotomy other filled with hlt | rfl | hlt
    · obtain ⟨t, ht, haccepts⟩ := h other found (by rw [List.getElem?_take_of_lt hlt, hfound])
      exact absurd haccepts (hmiss t ht)
    · rw [hslot, Option.some.injEq] at hfound
      rw [hfound]
      exact herror
    · obtain ⟨t, ht, haccepts⟩ := hother filled slot (by rw [List.getElem?_take_of_lt hlt, hslot])
      exact absurd haccepts (hnot t ht)

end Slot

end FileShell
