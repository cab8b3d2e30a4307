import FileShell.Token.Basic

/-!
# Command shapes

Every command starts with a keyword, and the keyword fixes the slots that follow it. A slot holds
either a fixed word or a file name. `Shape.table` lists the shapes; which words are keywords,
what the validator demands and what the line editor offers all come from this table.
-/

namespace FileShell

inductive CommandKind where
  | create
  | delete
  | copy
  | rename
  | exit
  deriving DecidableEq, Repr

/-- The name of a command, which is also the word that selects it. -/
def CommandKind.name : CommandKind → String
  | .create => "create"
  | .delete => "delete"
  | .copy => "copy"
  | .rename => "rename"
  | .exit => "exit"

/-- One position after the keyword. -/
inductive Slot where
  /-- A fixed word, which must stand there as a token of this kind. -/
  | literal (kind : TokenKind) (text : String)
  /-- A file name, which becomes an operand. -/
  | operand
  deriving DecidableEq, Repr

namespace Slot

/-- The fixed word in front of the first file name. -/
def fileMarker : Slot := .literal .filename "file"

/-- The fixed word between two file names. -/
def toConnector : Slot := .literal .connector "to"

/-- How a slot is shown in a usage text. -/
def label : Slot → String
  | .literal _ text => text
  | .operand => "<name>"

/-- Whether the slot holds a file name. -/
def isOperand : Slot → Bool
  | .literal .. => false
  | .operand => true

end Slot

/-- What happens to words that are left over when all slots are filled. -/
inductive TrailingPolicy where
  | reject
  | ignore
  deriving DecidableEq, Repr

structure Shape where
  kind : CommandKind
  keyword : String
  slots : List Slot
  trailing : TrailingPolicy
  deriving DecidableEq, Repr

/-- The form of each command. -/
def CommandKind.shape : CommandKind → Shape
  | .create => ⟨.create, "create", [.fileMarker, .operand], .reject⟩
  | .delete => ⟨.delete, "delete", [.fileMarker, .operand], .reject⟩
  | .copy => ⟨.copy, "copy", [.fileMarker, .operand, .toConnector, .operand], .reject⟩
  | .rename => ⟨.rename, "rename", [.fileMarker, .operand, .toConnector, .operand], .reject⟩
  | .exit => ⟨.exit, "exit", [], .ignore⟩

namespace Shape

def table : List Shape :=
  [CommandKind.create, .delete, .copy, .rename, .exit].map CommandKind.shape

def keywords : List String :=
  table.map Shape.keyword

/-- The words that connect two file names. -/
def connectors : List String := ["to"]

/-- The shape that a word selects. -/
def ofKeyword? (word : String) : Option Shape :=
  table.find? fun shape => shape.keyword = word

def isKeyword (word : String) : Bool :=
  table.any fun shape => shape.keyword = word

/-- The number of file names that the command takes. -/
def arity (shape : Shape) : Nat :=
  (shape.slots.filter Slot.isOperand).length

/-- The form of the command for a reader, such as `copy file <name> to <name>`. -/
def usage (shape : Shape) : String :=
  " ".intercalate (shape.keyword :: shape.slots.map Slot.label)

end Shape

def CommandKind.arity (kind : CommandKind) : Nat :=
  kind.shape.arity

end FileShell
