import FileShell.Shape
import FileShell.Text.Quoted

/-!
# Rejections

Why a list of tokens is not a command, and which token is to blame. The first mismatch counts.
-/

namespace FileShell

/-- What is wrong with a list of tokens. A missing word is `none`: the line ended too early. -/
inductive Reason where
  | empty
  | unknownCommand (word : String)
  /-- The fixed word in front of a file name is missing. -/
  | expectedMarker (expected : String) (found : Option String)
  | expectedConnector (expected : String) (found : Option String)
  | expectedFilename (found : Option String)
  /-- A word is left over. -/
  | trailing (word : String)
  deriving DecidableEq, Repr

structure Rejection where
  reason : Reason
  index : Nat
  /-- The byte offset of the token to blame. -/
  offset : Nat
  /-- The command that the first word selected, if it did. -/
  command : Option CommandKind
  deriving DecidableEq, Repr

namespace Reason

def describeFound : Option String → String
  | some word => "'" ++ word ++ "'"
  | none => "end of input"

def message : Reason → String
  | empty => "empty command"
  | unknownCommand word => "unknown command '" ++ word ++ "'"
  | expectedMarker expected found =>
    "expected '" ++ expected ++ "' marker, found " ++ describeFound found
  | expectedConnector expected found =>
    "expected connector '" ++ expected ++ "', found " ++ describeFound found
  | expectedFilename found => "expected filename, found " ++ describeFound found
  | trailing word => "unexpected trailing token '" ++ word ++ "'"

/-- The word that the reason blames. -/
def found : Reason → Option String
  | empty => none
  | unknownCommand word => some word
  | expectedMarker _ found => found
  | expectedConnector _ found => found
  | expectedFilename found => found
  | trailing word => some word

/-- The fixed word that should have stood there. -/
def expected : Reason → Option String
  | expectedMarker expected _ => some expected
  | expectedConnector expected _ => some expected
  | _ => none

/-- A word or its absence in a log record. -/
def recordFound : Option String → String
  | some word => "Some(" ++ Text.quoted word ++ ")"
  | none => "None"

def record : Reason → String
  | empty => "Empty"
  | unknownCommand word => "UnknownCommand(" ++ Text.quoted word ++ ")"
  | expectedMarker expected found =>
    "ExpectedMarker \x7b expected: " ++ Text.quoted expected ++
      ", found: " ++ recordFound found ++ " \x7d"
  | expectedConnector expected found =>
    "ExpectedConnector \x7b expected: " ++ Text.quoted expected ++
      ", found: " ++ recordFound found ++ " \x7d"
  | expectedFilename found => "ExpectedFilename \x7b found: " ++ recordFound found ++ " \x7d"
  | trailing word => "TrailingToken(" ++ Text.quoted word ++ ")"

end Reason

end FileShell
