import FileShell.Command.Rejection
import FileShell.Text.Offset

/-!
# Diagnostics

What the user is told when something goes wrong: a message, perhaps the place in the line that it
is about, and perhaps a hint. Reports on a line show the line with a caret under the place.
-/

namespace FileShell

inductive Trouble where
  /-- The line is no command. -/
  | form
  | file
  /-- A line of the configuration is wrong. -/
  | configuration
  deriving DecidableEq, Repr

def Trouble.title : Trouble → String
  | form => "Syntax error"
  | file => "File error"
  | configuration => "Config error"

structure Diagnostic where
  trouble : Trouble
  message : String
  hint : Option String := none
  /-- The byte offset in the line that the message is about. -/
  position : Option Nat := none
  deriving DecidableEq, Repr

namespace Diagnostic

/-- The status that the session takes on after reporting. -/
def status (d : Diagnostic) : Nat :=
  match d.trouble with
  | .form => 2
  | .file => 1
  | .configuration => 1

def headline (d : Diagnostic) : String :=
  d.trouble.title ++ ": " ++ d.message

def hintLine (d : Diagnostic) : String :=
  match d.hint with
  | some hint => "\n  hint: " ++ hint
  | none => ""

def plain (d : Diagnostic) : String :=
  d.headline ++ d.hintLine

/-- The lines that show a place: the input with a caret under the character at that offset, or
the offset alone when it is not inside the input. None inside a character. -/
def pointer? (input : String) (position : Nat) : Option String :=
  if position < Text.byteLength input.toList then
    (Text.cutAt input.toList position).map fun (before, _) =>
      "\n  " ++ input ++ "\n  " ++ "".pushn ' ' before.length ++ "^"
  else some ("\n  at position " ++ toString position ++ " (end of input)")

def render? (d : Diagnostic) (input : String) : Option String :=
  match d.position with
  | none => some d.plain
  | some position =>
    (pointer? input position).map fun pointer => d.headline ++ pointer ++ d.hintLine

/-- The report on an input line, without the place if that cannot be shown. -/
def render (d : Diagnostic) (input : String) : String :=
  (d.render? input).getD d.plain

/-- The diagnostic for a rejected line. Once the first word has selected a shape, its usage is the
hint. -/
def ofRejection (r : Rejection) : Diagnostic where
  trouble := .form
  message := r.reason.message
  hint :=
    match r.reason, r.command with
    | .empty, _ => none
    | .unknownCommand _, _ => none
    | _, none => none
    | _, some kind => some ("usage: " ++ kind.shape.usage)
  position := some r.offset

end Diagnostic

end FileShell
