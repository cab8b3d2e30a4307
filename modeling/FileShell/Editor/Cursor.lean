import FileShell.Text.Alphanumeric
import FileShell.Text.Offset
import FileShell.Text.Blank

/-!
# Cursors

A line with a cursor in it, as the characters before and after. The word at the cursor is the
longest run of word characters and dots that ends there.
-/

namespace FileShell.Editor

structure Cursor where
  before : List Char
  after : List Char
  deriving DecidableEq, Repr

namespace Cursor

/-- The cursor at a byte offset of a line; none if the offset is inside a character or past the
end. -/
def at? (line : String) (offset : Nat) : Option Cursor :=
  (Text.cutAt line.toList offset).map fun (before, after) => ⟨before, after⟩

/-- Whether a character can belong to the word at the cursor. -/
def isWordPart (c : Char) : Bool :=
  Text.isWordChar c || c == '.'

def word (c : Cursor) : String :=
  String.ofList (c.before.reverse.takeWhile isWordPart).reverse

/-- What stands before the word at the cursor. -/
def lead (c : Cursor) : String :=
  String.ofList (c.before.reverse.dropWhile isWordPart).reverse

def wordStart (c : Cursor) : Nat :=
  Text.byteLength c.lead.toList

def followsBlank (c : Cursor) : Bool :=
  match c.before.getLast? with
  | some ch => Text.isBlank ch
  | none => false

end Cursor

end FileShell.Editor
