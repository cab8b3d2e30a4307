import FileShell.Proofs.Editor.Expectation
import FileShell.Proofs.Token.Gaps

/-!
# Commands that are being typed

`Underway` says that the words of a text select a command and fill its first slots, one each. Such
a text is the whole command if all slots are filled, and is refused at its end otherwise; and these
are the texts that are refused with nothing found once a command is selected. A text that goes on
with words for the next slots stays underway (`Underway.extend`), so each word that fits takes the
command one slot further.
-/

namespace FileShell

open Token

namespace Command

/-- The words of a text select a command, and the words `filled` behind the first one fill its
first slots. -/
structure Underway (text : String) (kind : CommandKind) (filled : List Token) : Prop where
  begun : ∃ head, scan 0 text.toList = head :: filled ∧ head.text = kind.shape.keyword
  length_le : filled.length ≤ kind.shape.slots.length
  fits : Slot.Filled (kind.shape.slots.take filled.length) filled

variable {text other : String} {kind : CommandKind} {filled more : List Token}

namespace Underway

theorem selects (h : Underway text kind filled) : Selects (tokenize text) kind := by
  obtain ⟨head, hscan, hkey⟩ := h.begun
  exact ⟨head, by rw [front?_tokenize, hscan, List.head?_cons], hkey⟩

theorem tail_tokenize (h : Underway text kind filled) :
    (tokenize text).tail = filled ++ [endMarker (Text.byteLength text.toList)] := by
  obtain ⟨head, hscan, -⟩ := h.begun
  rw [tokenize, hscan, List.cons_append, List.tail_cons]

/-- The text ends behind the words that fill slots. -/
theorem getElem?_tokenize (h : Underway text kind filled) :
    (tokenize text)[filled.length + 1]? = some (endMarker (Text.byteLength text.toList)) := by
  rw [← List.getElem?_tail, h.tail_tokenize, List.getElem?_concat_length]

theorem front?_drop (h : Underway text kind filled) :
    front? ((tokenize text).drop (filled.length + 1)) = none := by
  rw [front?_eq_filter, List.getElem?_drop, Nat.add_zero, h.getElem?_tokenize]
  rfl

/-- With a word for each slot, the text is the command in both modes. -/
theorem ofLine_eq_ok (h : Underway text kind filled)
    (hlen : filled.length = kind.shape.slots.length) (strict : Bool) :
    ofLine strict text = .ok ⟨kind, Slot.captures kind.shape.slots filled⟩ := by
  have hfilled : Slot.Filled kind.shape.slots filled := by
    have hfits := h.fits
    rw [hlen, List.take_length] at hfits
    exact hfits
  have hslots : Slot.Filled kind.shape.slots (tokenize text).tail := by
    rw [h.tail_tokenize, Slot.filled_append_iff _ (by omega)]
    exact hfilled
  have hoperands : Slot.captures kind.shape.slots (tokenize text).tail =
      Slot.captures kind.shape.slots filled := by
    rw [h.tail_tokenize, Slot.captures_append, hlen, List.drop_length]
    exact List.append_nil _
  have hrest : front? ((tokenize text).drop (kind.shape.slots.length + 1)) = none := by
    rw [← hlen]
    exact h.front?_drop
  exact ofTokens_eq_ok_iff.mpr ⟨⟨h.selects, hslots, Or.inl hrest⟩, hoperands.symm⟩

/-- Without a word for the next slot, the text is refused at its end for this slot. -/
theorem ofLine_eq_error (h : Underway text kind filled) {slot : Slot}
    (hslot : kind.shape.slots[filled.length]? = some slot) (strict : Bool) :
    ofLine strict text = .error
      ⟨slot.mismatch none, filled.length + 1, Text.byteLength text.toList, some kind⟩ := by
  have hfits : Slot.Filled (kind.shape.slots.take filled.length) (tokenize text).tail := by
    have hlen : (kind.shape.slots.take filled.length).length ≤ filled.length := by
      rw [List.length_take]
      omega
    rw [h.tail_tokenize, Slot.filled_append_iff _ hlen]
    exact h.fits
  have hend : ∀ t, (tokenize text)[filled.length + 1]? = some t → ¬ slot.Accepts t := by
    intro t ht haccepts
    rw [h.getElem?_tokenize, Option.some.injEq] at ht
    have hword := haccepts.isEnd_eq_false
      (Slot.tokenKind_ne_endOfInput (List.mem_of_getElem? hslot))
    rw [← ht] at hword
    cases hword
  have hrefused : Refused strict (tokenize text) _ := .mismatch h.selects hfits hslot hend
  have hline := hrefused.ofTokens_eq
  rw [h.front?_drop, reject, offsetAt, h.getElem?_tokenize] at hline
  exact hline

/-- A text underway is the command, or refused at its end, whatever the mode. -/
theorem ofLine_outcome (h : Underway text kind filled) :
    (∃ c, ∀ strict, ofLine strict text = .ok c) ∨
    ∃ r, (∀ strict, ofLine strict text = .error r) ∧ r.reason.found = none ∧
      r.index = filled.length + 1 := by
  rcases Nat.lt_or_eq_of_le h.length_le with hlt | heq
  · have hslot := List.getElem?_eq_getElem hlt
    exact Or.inr ⟨_, h.ofLine_eq_error hslot, Slot.found_mismatch _ _, rfl⟩
  · exact Or.inl ⟨_, h.ofLine_eq_ok heq⟩

/-- Words that fit the next slots carry the text on. -/
theorem extend (h : Underway text kind filled)
    (hscan : scan 0 other.toList = scan 0 text.toList ++ more)
    (hlen : filled.length + more.length ≤ kind.shape.slots.length)
    (hmore : Slot.Filled ((kind.shape.slots.drop filled.length).take more.length) more) :
    Underway other kind (filled ++ more) := by
  obtain ⟨head, htext, hkey⟩ := h.begun
  have hcount : filled.length = (kind.shape.slots.take filled.length).length := by
    rw [List.length_take]
    omega
  refine ⟨⟨head, ?_, hkey⟩, ?_, ?_⟩
  · rw [hscan, htext, List.cons_append]
  · rw [List.length_append]
    exact hlen
  · rw [List.length_append, List.take_add]
    exact h.fits.append hmore hcount

/-- One word that fits the next slot takes the text one slot further. -/
theorem step (h : Underway text kind filled) {slot : Slot} {t : Token}
    (hslot : kind.shape.slots[filled.length]? = some slot)
    (hscan : scan 0 other.toList = scan 0 text.toList ++ [t]) (haccepts : slot.Accepts t) :
    Underway other kind (filled ++ [t]) := by
  have hlt := (List.getElem?_eq_some_iff.mp hslot).1
  refine h.extend hscan hlt ?_
  intro i found hfound
  rw [List.length_singleton, List.getElem?_take] at hfound
  split at hfound
  · next hi =>
    have hzero : i = 0 := Nat.lt_one_iff.mp hi
    rw [hzero, List.getElem?_drop, Nat.add_zero, hslot, Option.some.injEq] at hfound
    rw [hzero, ← hfound]
    exact ⟨t, rfl, haccepts⟩
  · cases hfound

end Underway

/-- A text that is refused at its end once a command is selected is underway, and the index is
that of the next slot. -/
theorem underway_of_ofLine {strict : Bool} {r : Rejection} (h : ofLine strict text = .error r)
    (hkind : r.command = some kind) (hfound : r.reason.found = none) :
    ∃ filled slot, Underway text kind filled ∧ kind.shape.slots[filled.length]? = some slot ∧
      r.index = filled.length + 1 := by
  have hrefused := Refused.of_ofTokens h
  have hindex := hrefused.index_eq_length hfound
  cases hrefused with
  | empty => cases hkind
  | unknown => cases hkind
  | trailing => cases hfound
  | @mismatch selected count slot hsel hfits hslot =>
    have hkind : selected = kind := Option.some.inj hkind
    subst selected
    obtain ⟨head, hfront, hkey⟩ := hsel
    rw [front?_tokenize, List.head?_eq_some_iff] at hfront
    obtain ⟨filled, hscan⟩ := hfront
    have hcount : count = filled.length := by
      rw [hscan, List.length_cons] at hindex
      exact Nat.succ.inj hindex
    subst hcount
    have hlt := (List.getElem?_eq_some_iff.mp hslot).1
    have hlen : (kind.shape.slots.take filled.length).length ≤ filled.length := by
      rw [List.length_take]
      omega
    rw [tokenize, hscan, List.cons_append, List.tail_cons, Slot.filled_append_iff _ hlen] at hfits
    exact ⟨filled, slot, ⟨⟨head, hscan, hkey⟩, Nat.le_of_lt hlt, hfits⟩, hslot, rfl⟩

end Command

end FileShell
