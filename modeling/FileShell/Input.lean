import FileShell.Text.Encoding
import FileShell.Text.Blank
import FileShell.Text.Cluster.Basic
import FileShell.Text.Lines
import FileShell.Text.Offset
import FileShell.Disk.Fault

/-!
# Input lines

Standard input is cut after every line feed, and each segment is read by itself: a segment that is
not UTF-8 is a fault and has no effect on the others. In lines that someone types, a backspace takes
back what was typed before it.
-/

namespace FileShell.Input

def lineFeed : UInt8 := 10

/-- The input cut after each line feed; a rest without one is a segment too. -/
def segments (input : Bytes) : List Bytes :=
  Text.segments lineFeed input

def isLineEnd (c : Char) : Bool :=
  c = '\n' || c = '\r'

/-- The line that a segment holds, without the line feeds and carriage returns at its end. -/
def readLine (segment : Bytes) : Except Fault String :=
  match Text.decode? segment with
  | none => .error .notText
  | some text => .ok (String.ofList (Text.dropEndWhile isLineEnd text.toList))

/-- The character that takes back what was typed before it. -/
def backspace : Char := '\x08'

/-- The number of bytes that a backspace takes back after a cluster. It is kept in a single byte. -/
def takenBack (cluster : List Char) : Nat :=
  Text.byteLength cluster % 256

/-- What is left of typed text, given newest character first, without its newest `n` bytes. Nothing
is taken back where that would split a character. -/
def dropNewest (n : Nat) (typed : List Char) : List Char :=
  match Text.cutAt typed n with
  | some (_, rest) => rest
  | none => typed

/-- What is left when clusters are typed after `typed`, both newest character first. `sizes` tells
how much each backspace takes back, newest first; more backspaces than clusters do nothing. -/
def eraseFrom (typed : List Char) (sizes : List Nat) : List (List Char) → List Char
  | [] => typed.reverse
  | cluster :: rest =>
    if cluster = [backspace] then
      match sizes with
      | [] => eraseFrom typed [] rest
      | size :: sizes => eraseFrom (dropNewest size typed) sizes rest
    else eraseFrom (cluster.reverse ++ typed) (takenBack cluster :: sizes) rest

/-- A typed line after its backspaces: each one takes back what a reader takes for one character. -/
def erase (line : List Char) : List Char :=
  eraseFrom [] [] (Text.clusters line)

/-- The line that a typed segment holds, without its line feed, without one carriage return before
that, and after its backspaces. -/
def readTyped (segment : Bytes) : Except Fault String :=
  match Text.decode? segment with
  | none => .error .notText
  | some text => .ok (String.ofList (erase (Text.dropLineEnd text.toList)))

def readLines (input : Bytes) : List (Except Fault String) :=
  (segments input).map readLine

end FileShell.Input
