import FileShell.Token.Scan

/-!
# What is expected next

The words typed so far select a shape and fill its slots from the front, whatever they are; the
next slot tells what is expected at the cursor.
-/

namespace FileShell.Editor

inductive Expectation where
  | keyword
  | literal (text : String)
  | filename
  | nothing
  deriving DecidableEq, Repr

namespace Expectation

/-- What a slot expects; nothing if there is no slot. -/
def ofSlot : Option Slot → Expectation
  | some (.literal _ text) => .literal text
  | some .operand => .filename
  | none => .nothing

def after (text : String) : Expectation :=
  match Token.words (Token.tokenize text) with
  | [] => .keyword
  | head :: rest =>
    match Shape.ofKeyword? head.text with
    | none => .nothing
    | some shape => ofSlot shape.slots[rest.length]?

/-- The words that can be offered for an expectation, if these are known. -/
def choices? : Expectation → Option (List String)
  | keyword => some Shape.keywords
  | literal text => some [text]
  | filename => none
  | nothing => none

end Expectation

/-- The slots that are still to be filled after a text, if its first word selects a shape and no
words are left over. -/
def missingSlots? (text : String) : Option (List Slot) :=
  match Token.words (Token.tokenize text) with
  | [] => none
  | head :: rest =>
    match Shape.ofKeyword? head.text with
    | none => none
    | some shape =>
      if rest.length ≤ shape.slots.length then some (shape.slots.drop rest.length) else none

end FileShell.Editor
