import FileShell.Proofs.Command.Slots

/-!
# Which tokens make a command

`Selects` says that the first word of some tokens selects a command, and `Refused` lists the ways
in which tokens fail to be one. Main statement: `accepts_iff`, the exact condition on the token at
each index under which a list of tokens is a given command. Nothing is assumed about the list: it
may lack an end marker, have one in the middle, or hold kinds that no line has.
-/

namespace FileShell

theorem Shape.mem_table_iff {shape : Shape} :
    shape ∈ Shape.table ↔ ∃ kind : CommandKind, shape = kind.shape := by
  constructor
  · intro h
    obtain ⟨kind, -, heq⟩ := List.mem_map.mp h
    exact ⟨kind, heq.symm⟩
  · rintro ⟨kind, rfl⟩
    refine List.mem_map.mpr ⟨kind, ?_, rfl⟩
    cases kind <;> decide

theorem Shape.mem_keywords_iff {word : String} :
    word ∈ Shape.keywords ↔ ∃ kind : CommandKind, word = kind.shape.keyword := by
  rw [Shape.keywords, List.mem_map]
  constructor
  · rintro ⟨shape, hshape, rfl⟩
    obtain ⟨kind, rfl⟩ := Shape.mem_table_iff.mp hshape
    exact ⟨kind, rfl⟩
  · rintro ⟨kind, rfl⟩
    exact ⟨kind.shape, Shape.mem_table_iff.mpr ⟨kind, rfl⟩, rfl⟩

@[simp] theorem CommandKind.kind_shape (kind : CommandKind) : kind.shape.kind = kind := by
  cases kind <;> rfl

theorem CommandKind.eq_of_keyword_eq {a b : CommandKind}
    (h : a.shape.keyword = b.shape.keyword) : a = b := by
  revert h
  cases a <;> cases b <;> decide

theorem Shape.ofKeyword?_eq_some_iff {word : String} {shape : Shape} :
    Shape.ofKeyword? word = some shape ↔
      ∃ kind : CommandKind, shape = kind.shape ∧ word = kind.shape.keyword := by
  constructor
  · intro h
    obtain ⟨kind, rfl⟩ := Shape.mem_table_iff.mp (List.mem_of_find?_eq_some h)
    have hword := List.find?_some h
    exact ⟨kind, rfl, (of_decide_eq_true hword).symm⟩
  · rintro ⟨kind, rfl, rfl⟩
    cases kind <;> rfl

theorem Shape.ofKeyword?_eq_none_iff {word : String} :
    Shape.ofKeyword? word = none ↔ ∀ kind : CommandKind, word ≠ kind.shape.keyword := by
  rw [Option.eq_none_iff_forall_ne_some]
  constructor
  · intro h kind hkey
    exact h kind.shape (Shape.ofKeyword?_eq_some_iff.mpr ⟨kind, rfl, hkey⟩)
  · intro h shape hsome
    obtain ⟨kind, -, hkey⟩ := Shape.ofKeyword?_eq_some_iff.mp hsome
    exact h kind hkey

namespace Command

/-- The first word of the tokens is the keyword of a command. -/
def Selects (tokens : List Token) (kind : CommandKind) : Prop :=
  ∃ head, Token.front? tokens = some head ∧ head.text = kind.shape.keyword

/-- What may stand behind the last slot of a command: an end marker, nothing, or anything if it
is ignored. -/
def Tolerates (strict : Bool) (kind : CommandKind) (rest : List Token) : Prop :=
  Token.front? rest = none ∨ kind.shape.trailing = .ignore ∧ strict = false

/-- What the tokens of a command have to meet: the first word selects it, the tokens behind that
word fill its slots, and what stands behind these is tolerated. -/
def Meets (strict : Bool) (tokens : List Token) (kind : CommandKind) : Prop :=
  Selects tokens kind ∧ Slot.Filled kind.shape.slots tokens.tail ∧
    Tolerates strict kind (tokens.drop (kind.shape.slots.length + 1))

/-- How a list of tokens fails to be a command, with the rejection that tells so. -/
inductive Refused (strict : Bool) (tokens : List Token) : Rejection → Prop
  | empty : Token.front? tokens = none → Refused strict tokens (reject tokens 0 .empty none)
  | unknown {head : Token} : Token.front? tokens = some head →
      (∀ kind : CommandKind, head.text ≠ kind.shape.keyword) →
      Refused strict tokens (reject tokens 0 (.unknownCommand head.text) none)
  | mismatch {kind : CommandKind} {filled : Nat} {slot : Slot} : Selects tokens kind →
      Slot.Filled (kind.shape.slots.take filled) tokens.tail →
      kind.shape.slots[filled]? = some slot →
      (∀ t, tokens[filled + 1]? = some t → ¬ slot.Accepts t) →
      Refused strict tokens (reject tokens (filled + 1)
        (slot.mismatch ((Token.front? (tokens.drop (filled + 1))).map Token.text)) (some kind))
  | trailing {kind : CommandKind} {extra : Token} : Selects tokens kind →
      Slot.Filled kind.shape.slots tokens.tail →
      Token.front? (tokens.drop (kind.shape.slots.length + 1)) = some extra →
      ¬ (kind.shape.trailing = .ignore ∧ strict = false) →
      Refused strict tokens (reject tokens (kind.shape.slots.length + 1) (.trailing extra.text)
        (some kind))

theorem Selects.unique {tokens : List Token} {a b : CommandKind} (ha : Selects tokens a)
    (hb : Selects tokens b) : a = b := by
  obtain ⟨head, hfront, hkey⟩ := ha
  obtain ⟨other, hother, hkey'⟩ := hb
  rw [hfront, Option.some.injEq] at hother
  subst hother
  exact CommandKind.eq_of_keyword_eq (hkey.symm.trans hkey')

theorem Refused.of_not_selects (strict : Bool) {tokens : List Token}
    (h : ∀ kind, ¬ Selects tokens kind) :
    ∃ r, ofTokens strict tokens = .error r ∧ Refused strict tokens r := by
  cases hfront : Token.front? tokens with
  | none => exact ⟨_, by simp only [ofTokens, hfront], .empty hfront⟩
  | some head =>
    have hword : ∀ kind : CommandKind, head.text ≠ kind.shape.keyword :=
      fun kind hkey => h kind ⟨head, hfront, hkey⟩
    have hshape : Shape.ofKeyword? head.text = none := Shape.ofKeyword?_eq_none_iff.mpr hword
    exact ⟨_, by simp only [ofTokens, hfront, hshape], .unknown hfront hword⟩

/-- What a list of tokens comes to when its first word selects a command. -/
theorem Selects.outcome {tokens : List Token} {kind : CommandKind} (h : Selects tokens kind)
    (strict : Bool) :
    (Meets strict tokens kind ∧
      ofTokens strict tokens = .ok ⟨kind, Slot.captures kind.shape.slots tokens.tail⟩) ∨
    (¬ Meets strict tokens kind ∧
      ∃ r, ofTokens strict tokens = .error r ∧ Refused strict tokens r) := by
  have hsel := h
  obtain ⟨head, hfront, hkey⟩ := h
  have hshape : Shape.ofKeyword? head.text = some kind.shape :=
    Shape.ofKeyword?_eq_some_iff.mpr ⟨kind, rfl, hkey⟩
  simp only [ofTokens, hfront, hshape, CommandKind.kind_shape]
  rcases Slot.fill_outcome (fun slot => Slot.tokenKind_ne_endOfInput) tokens.tail with
    ⟨hfilled, hfill⟩ | ⟨filled, slot, hfilled, hslot, hnot, hfill⟩
  · -- All slots are filled, so what stands behind them decides.
    rw [hfill, List.drop_tail]
    cases hrest : Token.front? (tokens.drop (kind.shape.slots.length + 1)) with
    | none => exact Or.inl ⟨⟨hsel, hfilled, Or.inl hrest⟩, by simp only [hrest]⟩
    | some extra =>
      by_cases hignore : kind.shape.trailing = .ignore ∧ strict = false
      · refine Or.inl ⟨⟨hsel, hfilled, Or.inr hignore⟩, ?_⟩
        simp only [hrest, if_pos hignore]
      · refine Or.inr ⟨?_, _, by simp only [hrest, if_neg hignore],
          .trailing hsel hfilled hrest hignore⟩
        rintro ⟨-, -, hnone | hboth⟩
        · rw [hrest] at hnone
          cases hnone
        · exact hignore hboth
  · rw [hfill, List.drop_tail]
    refine Or.inr ⟨?_, _, rfl, .mismatch hsel hfilled hslot (by simpa using hnot)⟩
    -- The slot of the mismatch is not filled.
    rintro ⟨-, hall, -⟩
    obtain ⟨t, ht, haccepts⟩ := hall filled slot hslot
    exact hnot t ht haccepts

/-- A list of tokens is either the one command whose demands it meets, or it meets those of none
and the rejection is one that `Refused` lists. -/
theorem ofTokens_outcome (strict : Bool) (tokens : List Token) :
    (∃ kind, Meets strict tokens kind ∧
      ofTokens strict tokens = .ok ⟨kind, Slot.captures kind.shape.slots tokens.tail⟩) ∨
    ((∀ kind, ¬ Meets strict tokens kind) ∧
      ∃ r, ofTokens strict tokens = .error r ∧ Refused strict tokens r) := by
  by_cases hsel : ∃ kind, Selects tokens kind
  · obtain ⟨kind, hsel⟩ := hsel
    rcases hsel.outcome strict with hmeets | ⟨hnot, hrefused⟩
    · exact Or.inl ⟨kind, hmeets⟩
    · refine Or.inr ⟨?_, hrefused⟩
      intro other hother
      rw [hsel.unique hother.1] at hnot
      exact hnot hother
  · have hnone : ∀ kind, ¬ Selects tokens kind := fun kind h => hsel ⟨kind, h⟩
    exact Or.inr ⟨fun kind h => hnone kind h.1, Refused.of_not_selects strict hnone⟩

/-- A list of tokens is a command exactly if it meets the demands of the command and the operands
are the texts at the operand slots. -/
theorem ofTokens_eq_ok_iff {strict : Bool} {tokens : List Token} {command : Command} :
    ofTokens strict tokens = .ok command ↔
      Meets strict tokens command.kind ∧
      command.operands = Slot.captures command.kind.shape.slots tokens.tail := by
  rcases ofTokens_outcome strict tokens with ⟨kind, hmeets, heq⟩ | ⟨hnot, r, heq, -⟩
  · rw [heq, Except.ok.injEq]
    constructor
    · rintro rfl
      exact ⟨hmeets, rfl⟩
    · rintro ⟨hother, hoperands⟩
      have hkind : kind = command.kind := hmeets.1.unique hother.1
      rw [hkind, ← hoperands]
  · rw [heq]
    constructor
    · intro h
      cases h
    · rintro ⟨hmeets, -⟩
      exact absurd hmeets (hnot command.kind)

theorem length_operands_of_ofTokens {strict : Bool} {tokens : List Token} {command : Command}
    (h : ofTokens strict tokens = .ok command) :
    command.operands.length = command.kind.arity := by
  obtain ⟨⟨-, hfilled, -⟩, hoperands⟩ := ofTokens_eq_ok_iff.mp h
  rw [hoperands, Slot.length_captures hfilled]
  rfl

/-- Every rejection is one of those that `Refused` lists. -/
theorem Refused.of_ofTokens {strict : Bool} {tokens : List Token} {r : Rejection}
    (h : ofTokens strict tokens = .error r) : Refused strict tokens r := by
  rcases ofTokens_outcome strict tokens with ⟨kind, -, heq⟩ | ⟨-, other, heq, hrefused⟩
  · rw [heq] at h
    cases h
  · rw [heq, Except.error.injEq] at h
    exact h ▸ hrefused

/-- Every rejection that `Refused` lists is the one that is given. -/
theorem Refused.ofTokens_eq {strict : Bool} {tokens : List Token} {r : Rejection}
    (h : Refused strict tokens r) : ofTokens strict tokens = .error r := by
  cases h with
  | empty hfront => simp only [ofTokens, hfront]
  | unknown hfront hword =>
    simp only [ofTokens, hfront, Shape.ofKeyword?_eq_none_iff.mpr hword]
  | @mismatch kind filled slot hsel hfilled hslot hnot =>
    obtain ⟨head, hfront, hkey⟩ := hsel
    have hshape : Shape.ofKeyword? head.text = some kind.shape :=
      Shape.ofKeyword?_eq_some_iff.mpr ⟨kind, rfl, hkey⟩
    have hfill := Slot.fill_eq_error (fun slot => Slot.tokenKind_ne_endOfInput) hfilled hslot
      (by simpa only [List.getElem?_tail] using hnot)
    simp only [ofTokens, hfront, hshape, hfill, List.drop_tail, CommandKind.kind_shape]
  | @trailing kind extra hsel hfilled hextra hrefuse =>
    obtain ⟨head, hfront, hkey⟩ := hsel
    have hshape : Shape.ofKeyword? head.text = some kind.shape :=
      Shape.ofKeyword?_eq_some_iff.mpr ⟨kind, rfl, hkey⟩
    have hfill := Slot.fill_eq_ok (fun slot => Slot.tokenKind_ne_endOfInput) hfilled
    simp only [ofTokens, hfront, hshape, hfill, List.drop_tail, hextra, if_neg hrefuse,
      CommandKind.kind_shape]

/-- A list of tokens is accepted as a command exactly under these conditions: its first token is a
word, namely the keyword; the token behind it at the index of each slot fills that slot; the
operands are the texts at the operand slots, as many as the command takes; and the token behind
the last slot is missing, an end marker, or ignored. -/
theorem accepts_iff (strict : Bool) (tokens : List Token) (command : Command) :
    ofTokens strict tokens = .ok command ↔
      (∃ head, tokens[0]? = some head ∧ head.isEnd = false ∧
        head.text = command.kind.shape.keyword) ∧
      (∀ (i : Nat) (slot : Slot), command.kind.shape.slots[i]? = some slot →
        ∃ t, tokens[i + 1]? = some t ∧ slot.Accepts t) ∧
      command.operands = Slot.captures command.kind.shape.slots tokens.tail ∧
      command.operands.length = command.kind.arity ∧
      ∀ t, tokens[command.kind.shape.slots.length + 1]? = some t →
        t.isEnd = true ∨ command.kind.shape.trailing = .ignore ∧ strict = false := by
  rw [ofTokens_eq_ok_iff]
  have htail : Tolerates strict command.kind
        (tokens.drop (command.kind.shape.slots.length + 1)) ↔
      ∀ t, tokens[command.kind.shape.slots.length + 1]? = some t →
        t.isEnd = true ∨ command.kind.shape.trailing = .ignore ∧ strict = false := by
    rw [Tolerates, Token.front?_eq_none_iff]
    simp only [List.getElem?_drop, Nat.add_zero]
    constructor
    · rintro (hend | hignore) t ht
      · exact Or.inl (hend t ht)
      · exact Or.inr hignore
    · intro h
      by_cases hignore : command.kind.shape.trailing = .ignore ∧ strict = false
      · exact Or.inr hignore
      · exact Or.inl fun t ht => (h t ht).resolve_right hignore
  have hfilled : Slot.Filled command.kind.shape.slots tokens.tail ↔
      ∀ (i : Nat) (slot : Slot), command.kind.shape.slots[i]? = some slot →
        ∃ t, tokens[i + 1]? = some t ∧ slot.Accepts t := by
    simp only [Slot.Filled, List.getElem?_tail]
  have hsel : Selects tokens command.kind ↔
      ∃ head, tokens[0]? = some head ∧ head.isEnd = false ∧
        head.text = command.kind.shape.keyword := by
    simp only [Selects, Token.front?_eq_some_iff, and_assoc]
  rw [Meets, hsel, htail, ← hfilled]
  constructor
  · rintro ⟨⟨hhead, hslots, hrest⟩, hoperands⟩
    refine ⟨hhead, hslots, hoperands, ?_, hrest⟩
    rw [hoperands, Slot.length_captures hslots]
    rfl
  · rintro ⟨hhead, hslots, hoperands, -, hrest⟩
    exact ⟨⟨hhead, hslots, hrest⟩, hoperands⟩

end Command

end FileShell
