import FileShell.Proofs.Command.Acceptance

/-!
# Where a rejection points

A list of tokens is `Viable` if it can be continued to one that is accepted. `Pinpoints` collects
what a rejection tells about its tokens: its index is the length of the longest viable beginning,
and its command, reason and offset belong to that index. Main statement:
`pinpoints_of_ofTokens_eq_error`, every rejection does all of this.
-/

namespace FileShell

/-- A token that fills a slot. -/
def Slot.sample : Slot → Token
  | .literal kind text => ⟨kind, text, 0⟩
  | .operand => ⟨.filename, "x", 0⟩

theorem Slot.accepts_sample (slot : Slot) : slot.Accepts slot.sample := by
  cases slot with
  | literal kind text => exact ⟨rfl, rfl⟩
  | operand => rfl

namespace Command

/-- Whether tokens can be continued to a list that is accepted. -/
def Viable (strict : Bool) (tokens : List Token) : Prop :=
  ∃ more command, ofTokens strict (tokens ++ more) = .ok command

/-- What a rejection tells about the tokens that it is for. -/
structure Pinpoints (strict : Bool) (tokens : List Token) (r : Rejection) : Prop where
  index_le : r.index ≤ tokens.length
  /-- The tokens before the one to blame could have led to a command. -/
  viable : Viable strict (tokens.take r.index)
  /-- With the token to blame they cannot. -/
  not_viable : ∀ t, tokens[r.index]? = some t → ¬ Viable strict (tokens.take r.index ++ [t])
  command_isSome : r.command.isSome = true ↔ 1 ≤ r.index
  /-- The command that is named is the one that the first word selects. -/
  selected : ∀ kind, r.command = some kind →
    ∃ head, tokens[0]? = some head ∧ Shape.ofKeyword? head.text = some kind.shape
  /-- The word found is the text of the token to blame, unless the line ends there. -/
  found_eq : r.reason.found = (tokens[r.index]?.filter fun t => !t.isEnd).map Token.text
  /-- A marker that is expected is the fixed word of the slot at the index. -/
  marker : ∀ text found, r.reason = .expectedMarker text found →
    ∃ kind role, r.command = some kind ∧ role ≠ .connector ∧
      kind.shape.slots[r.index - 1]? = some (.literal role text)
  connector : ∀ text found, r.reason = .expectedConnector text found →
    ∃ kind, r.command = some kind ∧
      kind.shape.slots[r.index - 1]? = some (.literal .connector text)
  filename : ∀ found, r.reason = .expectedFilename found →
    ∃ kind, r.command = some kind ∧ kind.shape.slots[r.index - 1]? = some .operand
  offset_of_token : ∀ t, tokens[r.index]? = some t → r.offset = t.offset
  /-- Past the last token, the offset is where that token stops. -/
  offset_of_last : tokens[r.index]? = none → ∀ t, tokens.getLast? = some t →
    r.offset = t.offset + Text.byteLength t.text.toList
  offset_of_nil : tokens = [] → r.offset = 0

section Beginnings

variable {strict : Bool} {tokens more : List Token} {kind : CommandKind} {t : Token}

/-- Which command is selected depends on the first token only. -/
theorem Selects.congr {others : List Token} (h : Selects tokens kind)
    (h0 : others[0]? = tokens[0]?) : Selects others kind := by
  obtain ⟨head, hfront, hkey⟩ := h
  refine ⟨head, ?_, hkey⟩
  rw [Token.front?_eq_filter] at hfront ⊢
  rw [h0]
  exact hfront

theorem Selects.length_pos (h : Selects tokens kind) : 0 < tokens.length := by
  obtain ⟨head, hfront, -⟩ := h
  obtain ⟨hsome, -⟩ := Token.front?_eq_some_iff.mp hfront
  exact (List.getElem?_eq_some_iff.mp hsome).1

theorem getElem?_beginning {i j : Nat} (ht : tokens[i]? = some t) (hj : j ≤ i) :
    (tokens.take i ++ [t] ++ more)[j]? = tokens[j]? := by
  have hlen : i < tokens.length := (List.getElem?_eq_some_iff.mp ht).1
  have htake : tokens.take i ++ [t] = tokens.take (i + 1) := by
    rw [List.take_add_one, ht]
    rfl
  rw [htake, List.getElem?_append_left (by rw [List.length_take]; omega),
    List.getElem?_take_of_lt (by omega)]

theorem viable_nil : Viable strict [] :=
  ⟨[⟨.keyword, "exit", 0⟩], ⟨.exit, []⟩, by cases strict <;> rfl⟩

/-- Tokens that begin with a viable list begin with a keyword. -/
theorem exists_selects_of_viable (h : Viable strict (t :: more)) :
    t.isEnd = false ∧ ∃ kind : CommandKind, t.text = kind.shape.keyword := by
  obtain ⟨rest, command, hok⟩ := h
  obtain ⟨⟨⟨head, hfront, hkey⟩, -⟩, -⟩ := ofTokens_eq_ok_iff.mp hok
  obtain ⟨hsome, hend⟩ := Token.front?_eq_some_iff.mp hfront
  simp only [List.cons_append, List.getElem?_cons_zero, Option.some.injEq] at hsome
  subst hsome
  exact ⟨hend, command.kind, hkey⟩

/-- Samples for the slots that are left make a command of tokens that fill the first slots. -/
theorem Selects.meets_samples (h : Selects tokens kind) {filled : Nat}
    (hle : filled ≤ kind.shape.slots.length) (hlen : filled + 1 ≤ tokens.length)
    (hfilled : Slot.Filled (kind.shape.slots.take filled) tokens.tail) :
    Meets strict (tokens.take (filled + 1) ++ (kind.shape.slots.drop filled).map Slot.sample)
      kind := by
  have htake : (tokens.take (filled + 1)).length = filled + 1 := by
    rw [List.length_take]
    omega
  refine ⟨h.congr ?_, ?_, Or.inl ?_⟩
  · rw [List.getElem?_append_left (by omega), List.getElem?_take_of_lt (by omega)]
  · -- The tokens fill the first slots, and each other slot has its sample.
    intro i slot hslot
    rw [List.getElem?_tail]
    by_cases hi : i < filled
    · have hfirst : (kind.shape.slots.take filled)[i]? = some slot := by
        rw [List.getElem?_take_of_lt hi]
        exact hslot
      obtain ⟨t, ht, haccepts⟩ := hfilled i slot hfirst
      rw [List.getElem?_tail] at ht
      rw [List.getElem?_append_left (by omega), List.getElem?_take_of_lt (by omega)]
      exact ⟨t, ht, haccepts⟩
    · refine ⟨slot.sample, ?_, slot.accepts_sample⟩
      have hindex : filled + (i + 1 - (filled + 1)) = i := by omega
      rw [List.getElem?_append_right (by omega), htake, List.getElem?_map, List.getElem?_drop,
        hindex, hslot]
      rfl
  · -- The samples end with the last slot.
    rw [List.drop_eq_nil_of_le]
    · rfl
    · rw [List.length_append, htake, List.length_map, List.length_drop]
      omega

/-- Tokens that fill the first slots of a command are viable. -/
theorem Selects.viable_take (h : Selects tokens kind) {filled : Nat}
    (hle : filled ≤ kind.shape.slots.length)
    (hfilled : Slot.Filled (kind.shape.slots.take filled) tokens.tail) :
    filled + 1 ≤ tokens.length ∧ Viable strict (tokens.take (filled + 1)) := by
  have hpos := h.length_pos
  have hlen : filled + 1 ≤ tokens.length := by
    have hslots := hfilled.length_le
    rw [List.length_take, List.length_tail] at hslots
    omega
  exact ⟨hlen, _, ⟨kind, Slot.captures kind.shape.slots _⟩,
    ofTokens_eq_ok_iff.mpr ⟨h.meets_samples hle hlen hfilled, rfl⟩⟩

/-- A token that does not fill its slot ends what is viable. -/
theorem Selects.not_viable_of_mismatch (h : Selects tokens kind) {filled : Nat} {slot : Slot}
    (hslot : kind.shape.slots[filled]? = some slot) (ht : tokens[filled + 1]? = some t)
    (hnot : ¬ slot.Accepts t) : ¬ Viable strict (tokens.take (filled + 1) ++ [t]) := by
  rintro ⟨more, command, hok⟩
  obtain ⟨⟨hsel, hfilled, -⟩, -⟩ := ofTokens_eq_ok_iff.mp hok
  have hkind : command.kind = kind :=
    hsel.unique (h.congr (getElem?_beginning ht (by omega)))
  -- So it would fill the slot with the token that does not fit.
  rw [hkind] at hfilled
  obtain ⟨u, hu, haccepts⟩ := hfilled filled slot hslot
  rw [List.getElem?_tail, getElem?_beginning ht (by omega), ht, Option.some.injEq] at hu
  exact hnot (hu ▸ haccepts)

/-- A word behind the last slot that is not tolerated ends what is viable. -/
theorem Selects.not_viable_of_trailing (h : Selects tokens kind)
    (ht : tokens[kind.shape.slots.length + 1]? = some t) (hend : t.isEnd = false)
    (hrefuse : ¬ (kind.shape.trailing = .ignore ∧ strict = false)) :
    ¬ Viable strict (tokens.take (kind.shape.slots.length + 1) ++ [t]) := by
  rintro ⟨more, command, hok⟩
  obtain ⟨⟨hsel, -, hrest⟩, -⟩ := ofTokens_eq_ok_iff.mp hok
  have hkind : command.kind = kind :=
    hsel.unique (h.congr (getElem?_beginning ht (by omega)))
  rw [hkind] at hrest
  rcases hrest with hnone | hignore
  · have hlast := Token.front?_eq_none_iff.mp hnone t (by
      rw [List.getElem?_drop, Nat.add_zero, getElem?_beginning ht (by omega), ht])
    rw [hend] at hlast
    cases hlast
  · exact hrefuse hignore

end Beginnings

theorem mismatch_names {kind : CommandKind} {slot : Slot} {i : Nat} (found : Option String)
    (hslot : kind.shape.slots[i]? = some slot) :
    (∀ text other, slot.mismatch found = .expectedMarker text other →
      ∃ role, role ≠ .connector ∧ kind.shape.slots[i]? = some (.literal role text)) ∧
    (∀ text other, slot.mismatch found = .expectedConnector text other →
      kind.shape.slots[i]? = some (.literal .connector text)) ∧
    (∀ other, slot.mismatch found = .expectedFilename other →
      kind.shape.slots[i]? = some .operand) := by
  cases slot with
  | operand => simp [Slot.mismatch, hslot]
  | literal role text =>
    by_cases hrole : role = .connector
    · subst hrole
      simp only [Slot.mismatch, if_true]
      refine ⟨by simp, ?_, by simp⟩
      rintro _ _ ⟨⟩
      exact hslot
    · simp only [Slot.mismatch, if_neg hrole]
      refine ⟨?_, by simp, by simp⟩
      rintro _ _ ⟨⟩
      exact ⟨role, hrole, hslot⟩

namespace Refused

variable {strict : Bool} {tokens : List Token} {r : Rejection}

theorem offset_eq (h : Refused strict tokens r) : r.offset = Token.offsetAt tokens r.index := by
  cases h <;> rfl

theorem found_eq (h : Refused strict tokens r) :
    r.reason.found = (tokens[r.index]?.filter fun t => !t.isEnd).map Token.text := by
  have hfront : r.reason.found = (Token.front? (tokens.drop r.index)).map Token.text := by
    cases h with
    | empty hfront => simp [reject, Reason.found, hfront]
    | unknown hfront => simp [reject, Reason.found, hfront]
    | mismatch => exact Slot.found_mismatch _ _
    | trailing _ _ hextra => simp [reject, Reason.found, hextra]
  rw [hfront, Token.front?_eq_filter, List.getElem?_drop, Nat.add_zero]

theorem viable (h : Refused strict tokens r) :
    r.index ≤ tokens.length ∧ Viable strict (tokens.take r.index) := by
  cases h with
  | empty => exact ⟨Nat.zero_le _, viable_nil⟩
  | unknown => exact ⟨Nat.zero_le _, viable_nil⟩
  | mismatch hsel hfilled hslot =>
    have hlt := (List.getElem?_eq_some_iff.mp hslot).1
    exact hsel.viable_take (Nat.le_of_lt hlt) hfilled
  | trailing hsel hfilled =>
    exact hsel.viable_take (Nat.le_refl _) (by rw [List.take_length]; exact hfilled)

theorem not_viable (h : Refused strict tokens r) {t : Token} (ht : tokens[r.index]? = some t) :
    ¬ Viable strict (tokens.take r.index ++ [t]) := by
  cases h with
  | empty hfront =>
    intro hviable
    have hend := Token.front?_eq_none_iff.mp hfront t ht
    rw [(exists_selects_of_viable hviable).1] at hend
    cases hend
  | unknown hfront hword =>
    intro hviable
    obtain ⟨kind, hkey⟩ := (exists_selects_of_viable hviable).2
    have hsome := (Token.front?_eq_some_iff.mp hfront).1
    have heq := Option.some.inj (ht.symm.trans hsome)
    exact hword kind (heq ▸ hkey)
  | mismatch hsel _ hslot hnot => exact hsel.not_viable_of_mismatch hslot ht (hnot t ht)
  | trailing hsel _ hextra hrefuse =>
    obtain ⟨hsome, hend⟩ := Token.front?_eq_some_iff.mp hextra
    rw [List.getElem?_drop, Nat.add_zero] at hsome
    have heq := Option.some.inj (ht.symm.trans hsome)
    exact hsel.not_viable_of_trailing ht (heq ▸ hend) hrefuse

theorem command_isSome (h : Refused strict tokens r) :
    r.command.isSome = true ↔ 1 ≤ r.index := by
  cases h <;> simp [reject]

theorem selects (h : Refused strict tokens r) {kind : CommandKind}
    (hkind : r.command = some kind) : Selects tokens kind := by
  cases h with
  | empty => cases hkind
  | unknown => cases hkind
  | mismatch hsel => cases hkind; exact hsel
  | trailing hsel => cases hkind; exact hsel

/-- A reason that expects something names what the slot at the index holds. -/
theorem expects (h : Refused strict tokens r) :
    (∀ text found, r.reason = .expectedMarker text found →
      ∃ kind role, r.command = some kind ∧ role ≠ .connector ∧
        kind.shape.slots[r.index - 1]? = some (.literal role text)) ∧
    (∀ text found, r.reason = .expectedConnector text found →
      ∃ kind, r.command = some kind ∧
        kind.shape.slots[r.index - 1]? = some (.literal .connector text)) ∧
    (∀ found, r.reason = .expectedFilename found →
      ∃ kind, r.command = some kind ∧ kind.shape.slots[r.index - 1]? = some .operand) := by
  cases h with
  | empty => simp [reject]
  | unknown => simp [reject]
  | @mismatch kind filled slot hsel hfilled hslot hnot =>
    obtain ⟨hmarker, hconnector, hfilename⟩ :=
      mismatch_names ((Token.front? (tokens.drop (filled + 1))).map Token.text) hslot
    refine ⟨?_, ?_, ?_⟩
    · intro text found hreason
      obtain ⟨role, hrole, hsome⟩ := hmarker text found hreason
      exact ⟨kind, role, rfl, hrole, hsome⟩
    · intro text found hreason
      exact ⟨kind, rfl, hconnector text found hreason⟩
    · intro found hreason
      exact ⟨kind, rfl, hfilename found hreason⟩
  | trailing => simp [reject]

end Refused

/-- A rejection blames the first token that cannot belong to a command: the tokens before it can
be continued to a command, and with it they cannot. What else the rejection tells belongs to that
token. -/
theorem pinpoints_of_ofTokens_eq_error {strict : Bool} {tokens : List Token} {r : Rejection}
    (h : ofTokens strict tokens = .error r) : Pinpoints strict tokens r := by
  have hrefused := Refused.of_ofTokens h
  obtain ⟨hle, hviable⟩ := hrefused.viable
  obtain ⟨hmarker, hconnector, hfilename⟩ := hrefused.expects
  refine ⟨hle, hviable, fun t ht => hrefused.not_viable ht, hrefused.command_isSome, ?_,
    hrefused.found_eq, hmarker, hconnector, hfilename, ?_, ?_, ?_⟩
  · intro kind hkind
    obtain ⟨head, hfront, hkey⟩ := hrefused.selects hkind
    exact ⟨head, (Token.front?_eq_some_iff.mp hfront).1,
      Shape.ofKeyword?_eq_some_iff.mpr ⟨kind, rfl, hkey⟩⟩
  · intro t ht
    simp only [hrefused.offset_eq, Token.offsetAt, ht]
  · intro hnone t ht
    simp only [hrefused.offset_eq, Token.offsetAt, hnone, ht, Token.stop]
  · rintro rfl
    simp [hrefused.offset_eq, Token.offsetAt]

/-- An end marker in the middle ends the line there, whatever follows it. -/
theorem pinpoints_end_in_middle :
    ofTokens false [⟨.keyword, "copy", 0⟩, ⟨.filename, "file", 5⟩, ⟨.endOfInput, "x", 9⟩,
        ⟨.filename, "a", 11⟩] =
      .error ⟨.expectedFilename none, 2, 9, some .copy⟩ ∧
    Pinpoints false [⟨.keyword, "copy", 0⟩, ⟨.filename, "file", 5⟩, ⟨.endOfInput, "x", 9⟩,
        ⟨.filename, "a", 11⟩] ⟨.expectedFilename none, 2, 9, some .copy⟩ :=
  ⟨rfl, pinpoints_of_ofTokens_eq_error rfl⟩

end Command

end FileShell
