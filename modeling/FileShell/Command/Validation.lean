import FileShell.Command.Basic
import FileShell.Command.Rejection
import FileShell.Token.Scan

/-!
# From tokens to a command

The first word selects a shape, and the tokens after it must fill the slots of that shape one by
one. `Command.ofTokens` reads any list of tokens, also one without an end marker or with words
after it: a line ends at the first end marker, or with the list.
-/

namespace FileShell

/-- Whether a slot takes a token: the operand it contributes, or why it does not fit. -/
def Slot.take (slot : Slot) (token : Option Token) : Except Reason (Option String) :=
  match slot with
  | .literal kind text =>
    if token.any fun t => t.kind = kind ∧ t.text = text then .ok none
    else if kind = .connector then .error (.expectedConnector text (token.map Token.text))
    else .error (.expectedMarker text (token.map Token.text))
  | .operand =>
    match token with
    | some t =>
      if t.kind = .filename then .ok (some t.text) else .error (.expectedFilename (some t.text))
    | none => .error (.expectedFilename none)

/-- The operands that fill the slots from the front of the tokens, and the tokens after them; or
the number of slots filled before the first mismatch, and what was wrong there. -/
def Slot.fill : List Slot → List Token → Except (Nat × Reason) (List String × List Token)
  | [], tokens => .ok ([], tokens)
  | slot :: slots, tokens =>
    match slot.take (Token.front? tokens) with
    | .error reason => .error (0, reason)
    | .ok captured =>
      match Slot.fill slots tokens.tail with
      | .error (filled, reason) => .error (filled + 1, reason)
      | .ok (operands, rest) => .ok (captured.toList ++ operands, rest)

namespace Command

def reject (tokens : List Token) (index : Nat) (reason : Reason) (command : Option CommandKind) :
    Rejection :=
  ⟨reason, index, Token.offsetAt tokens index, command⟩

/-- The command that a list of tokens spells. In strict mode words left over are refused even
where the shape would ignore them. -/
def ofTokens (strict : Bool) (tokens : List Token) : Except Rejection Command :=
  match Token.front? tokens with
  | none => .error (reject tokens 0 .empty none)
  | some head =>
    match Shape.ofKeyword? head.text with
    | none => .error (reject tokens 0 (.unknownCommand head.text) none)
    | some shape =>
      match Slot.fill shape.slots tokens.tail with
      | .error (filled, reason) => .error (reject tokens (filled + 1) reason (some shape.kind))
      | .ok (operands, rest) =>
        match Token.front? rest with
        | none => .ok ⟨shape.kind, operands⟩
        | some extra =>
          if shape.trailing = .ignore ∧ strict = false then .ok ⟨shape.kind, operands⟩
          else
            .error (reject tokens (shape.slots.length + 1) (.trailing extra.text) (some shape.kind))

def ofLine (strict : Bool) (line : String) : Except Rejection Command :=
  ofTokens strict (Token.tokenize line)

/-- What every reading of a list of tokens keeps to: an accepted command has as many operands as
its kind takes, and strict mode accepts it too unless it is `exit`. -/
def consistent (tokens : List Token) : Bool :=
  match ofTokens false tokens with
  | .error _ => true
  | .ok command =>
    decide (command.operands.length = command.kind.arity) &&
      (decide (command.kind = .exit) ||
        match ofTokens true tokens with
        | .ok other => decide (other = command)
        | .error _ => false)

end Command

end FileShell
