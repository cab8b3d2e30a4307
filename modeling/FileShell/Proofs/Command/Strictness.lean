import FileShell.Proofs.Command.Acceptance
import FileShell.Text.Encoding

/-!
# Strict mode

Strict mode matters for one command only: `exit` with a word behind it (`TrailsExit`) is accepted
in permissive mode, where that word is ignored, and refused in strict mode, where it is blamed. All
other lists of tokens come to the same in both modes, also when they are rejected. Main statement:
`strict_refuses_trailing_exit`, from which the readings of every text are consistent.
-/

namespace FileShell

/-- Only `exit` ignores what follows it. -/
theorem CommandKind.eq_exit_of_ignore {kind : CommandKind} (h : kind.shape.trailing = .ignore) :
    kind = .exit := by
  revert h
  cases kind <;> decide

namespace Command

/-- The first word of the tokens is `exit`, and the word `extra` follows it. -/
inductive TrailsExit (extra : Token) : List Token → Prop
  | intro {head : Token} {rest : List Token} : head.isEnd = false → head.text = "exit" →
      extra.isEnd = false → TrailsExit extra (head :: extra :: rest)

variable {tokens : List Token} {extra : Token}

theorem TrailsExit.selects (h : TrailsExit extra tokens) : Selects tokens .exit := by
  cases h with
  | intro hhead htext hextra => exact ⟨_, Token.front?_eq_some_iff.mpr ⟨rfl, hhead⟩, htext⟩

theorem TrailsExit.front?_tail (h : TrailsExit extra tokens) :
    Token.front? tokens.tail = some extra := by
  cases h with
  | intro hhead htext hextra => exact Token.front?_eq_some_iff.mpr ⟨rfl, hextra⟩

theorem trailsExit_of_selects (h : Selects tokens .exit)
    (hextra : Token.front? tokens.tail = some extra) : TrailsExit extra tokens := by
  obtain ⟨head, hhead, htext⟩ := h
  obtain ⟨hfirst, hword⟩ := Token.front?_eq_some_iff.mp hhead
  obtain ⟨hsecond, hend⟩ := Token.front?_eq_some_iff.mp hextra
  cases tokens with
  | nil => cases hfirst
  | cons t rest =>
    cases rest with
    | nil => cases hsecond
    | cons u rest =>
      cases hfirst
      cases hsecond
      exact .intro hword htext hend

theorem ofTokens_of_trailsExit (h : TrailsExit extra tokens) (strict : Bool) :
    ofTokens strict tokens =
      if strict then .error (reject tokens 1 (.trailing extra.text) (some .exit))
      else .ok ⟨.exit, []⟩ := by
  obtain ⟨head, hhead, htext⟩ := h.selects
  have hshape : Shape.ofKeyword? head.text = some CommandKind.exit.shape :=
    Shape.ofKeyword?_eq_some_iff.mpr ⟨.exit, rfl, htext⟩
  have hfill : Slot.fill CommandKind.exit.shape.slots tokens.tail = .ok ([], tokens.tail) := rfl
  simp only [ofTokens, hhead, hshape, hfill, h.front?_tail]
  cases strict with
  | false => rfl
  | true => rfl

/-- Unless `exit` is followed by a word, the mode makes no difference. -/
theorem ofTokens_strict_eq (h : ∀ extra, ¬ TrailsExit extra tokens) :
    ofTokens true tokens = ofTokens false tokens := by
  cases hhead : Token.front? tokens with
  | none => simp only [ofTokens, hhead]
  | some head =>
    cases hshape : Shape.ofKeyword? head.text with
    | none => simp only [ofTokens, hhead, hshape]
    | some shape =>
      simp only [ofTokens, hhead, hshape]
      obtain ⟨kind, rfl, htext⟩ := Shape.ofKeyword?_eq_some_iff.mp hshape
      cases hfill : Slot.fill kind.shape.slots tokens.tail with
      | error mismatch => rfl
      | ok found =>
        obtain ⟨operands, rest⟩ := found
        cases hrest : Token.front? rest with
        | none => simp only [hrest]
        | some extra =>
          -- The shape would have to ignore this word, and only that of `exit` does.
          have hreject : kind.shape.trailing ≠ .ignore := by
            intro hignore
            obtain rfl := CommandKind.eq_exit_of_ignore hignore
            cases hfill
            exact h extra (trailsExit_of_selects ⟨head, hhead, htext⟩ hrest)
          simp only [hrest, hreject, false_and, if_false]

theorem consistent_eq_true (tokens : List Token) : consistent tokens = true := by
  unfold consistent
  cases hread : ofTokens false tokens with
  | error r => rfl
  | ok c =>
    have hlen := length_operands_of_ofTokens hread
    by_cases htrails : ∃ extra, TrailsExit extra tokens
    · obtain ⟨extra, htrails⟩ := htrails
      rw [ofTokens_of_trailsExit htrails] at hread
      cases hread
      rfl
    · have hsame := ofTokens_strict_eq fun extra hextra => htrails ⟨extra, hextra⟩
      simp [hsame, hread, hlen]

/-- Both modes come to the same command or the same rejection for every list of tokens except
`exit` with a word behind it: that is the command `exit` in permissive mode, and is rejected because
of the word in strict mode. So, whatever bytes a text is read from, an accepted command has the
operands it takes, and strict mode accepts it too unless it is `exit`. -/
theorem strict_refuses_trailing_exit :
    (∀ (tokens : List Token) (extra : Token), TrailsExit extra tokens →
      ofTokens false tokens = .ok ⟨.exit, []⟩ ∧
      ofTokens true tokens = .error ⟨.trailing extra.text, 1, extra.offset, some .exit⟩) ∧
    (∀ tokens : List Token, (∀ extra, ¬ TrailsExit extra tokens) →
      ofTokens true tokens = ofTokens false tokens) ∧
    ∀ bytes : Bytes, consistent (Token.tokenize (Text.decodeLossy bytes)) = true := by
  refine ⟨?_, fun _ => ofTokens_strict_eq, fun bytes => consistent_eq_true _⟩
  intro tokens extra h
  refine ⟨ofTokens_of_trailsExit h false, (ofTokens_of_trailsExit h true).trans ?_⟩
  cases h with
  | intro hhead htext hextra => rfl

/-- A hand-made list whose `exit` is no keyword token, and one that is rejected in both modes. -/
theorem strict_refuses_trailing_exit_now :
    (ofTokens false [⟨.filename, "exit", 3⟩, ⟨.keyword, "now", 9⟩] = .ok ⟨.exit, []⟩ ∧
      ofTokens true [⟨.filename, "exit", 3⟩, ⟨.keyword, "now", 9⟩] =
        .error ⟨.trailing "now", 1, 9, some .exit⟩) ∧
    ofTokens true [⟨.keyword, "exit", 0⟩, ⟨.endOfInput, "", 4⟩, ⟨.filename, "now", 5⟩] =
      ofTokens false [⟨.keyword, "exit", 0⟩, ⟨.endOfInput, "", 4⟩, ⟨.filename, "now", 5⟩] := by
  refine ⟨strict_refuses_trailing_exit.1 _ _ (.intro rfl rfl rfl),
    strict_refuses_trailing_exit.2.1 _ ?_⟩
  rintro extra ⟨-, -, hextra⟩
  cases hextra

end Command

end FileShell
