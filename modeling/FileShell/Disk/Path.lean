import FileShell.Disk.Fault
import FileShell.Text.Offset

/-!
# Paths

A path is a text that leads to an entry: names between slashes, from the top of the tree if it
begins with a slash and from the current directory otherwise.
-/

namespace FileShell

structure Path where
  absolute : Bool
  /-- The names, among them `.` and `..`. -/
  names : List String
  /-- Whether a slash follows the last name, so that it must lead to a directory. -/
  slashed : Bool
  deriving DecidableEq, Repr

namespace Path

def separator : Char := '/'

/-- The pieces between separators. There is always one more than there are separators. -/
def pieces : List Char → List (List Char)
  | [] => [[]]
  | c :: cs =>
    if c = separator then [] :: pieces cs
    else
      match pieces cs with
      | [] => [[c]]
      | piece :: rest => (c :: piece) :: rest

/-- The path that a text spells. Empty names count for nothing. -/
def parse (s : String) : Path where
  absolute := s.toList.head? = some separator
  names := ((pieces s.toList).filter (· ≠ [])).map String.ofList
  slashed := s.toList.getLast? = some separator

def maxLength : Nat := 4095

def maxNameLength : Nat := 255

def tooLong (name : String) : Bool :=
  decide (maxNameLength < Text.byteLength name.toList)

/-- Whether a path can be handed to the system. -/
def hasNul (s : String) : Bool :=
  s.toList.any fun c => c.toNat = 0

def read (s : String) : Except SystemFault Path :=
  if s = "" then .error .noEntry
  else if maxLength < Text.byteLength s.toList then .error .nameTooLong
  else .ok (parse s)

/-- The path of a name in a directory. A name that begins at the top stands for itself. -/
def join (directory name : String) : String :=
  if name.toList.head? = some separator then name
  else if directory = "" ∨ directory.toList.getLast? = some separator then directory ++ name
  else directory ++ "/" ++ name

end Path

end FileShell
