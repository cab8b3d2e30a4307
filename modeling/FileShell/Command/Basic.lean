import FileShell.Shape

/-!
# Commands

A command is what a line asks for: its kind and the file names it works on.
-/

namespace FileShell

/-- A command with its file names. Commands read from a line have as many operands as their kind
takes; one that is put together by hand may have fewer or more. -/
structure Command where
  kind : CommandKind
  operands : List String
  deriving DecidableEq, Repr

namespace Command

/-- The file that the command starts from. -/
def source (c : Command) : Option String := c.operands[0]?

/-- The file that the command leads to. -/
def destination (c : Command) : Option String := c.operands[1]?

def describe (c : Command) : String :=
  " ".intercalate (c.kind.name :: c.operands)

end Command

end FileShell
