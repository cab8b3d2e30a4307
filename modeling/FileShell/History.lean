import FileShell.Configuration
import FileShell.Event
import FileShell.Text.Lines

/-!
# History

The lines entered so far, oldest first, and the file that keeps them between sessions. The file
begins with a mark and holds an entry per line, with line feeds and backslashes escaped; without
the mark every line is an entry as it stands.
-/

namespace FileShell

structure History where
  /-- The entries, oldest first. -/
  entries : List String := []
  /-- How many entries have not been saved. -/
  unsaved : Nat := 0
  deriving DecidableEq, Repr

namespace History

def capacity : Nat := 100

/-- Whether an entry is worth keeping: it is not empty, and not the same as the one before. -/
def keeps (h : History) (entry : String) : Bool :=
  decide (entry ≠ "") && decide (h.entries.getLast? ≠ some entry)

/-- The entries with one more at the end, and without the oldest one if they are too many. -/
def push (entries : List String) (entry : String) : List String :=
  let entries := entries ++ [entry]
  entries.drop (entries.length - capacity)

/-- The history after an entry, if that is worth keeping. -/
def add (h : History) (entry : String) : History :=
  if h.keeps entry then
    let entries := push h.entries entry
    ⟨entries, min (h.unsaved + 1) entries.length⟩
  else h

def addAll (h : History) (entries : List String) : History :=
  entries.foldl add h

def ofList (entries : List String) : History :=
  addAll {} entries

/-- The newest entry that begins with a text, among the one at an index and those before it. There
is none if no entry has the index. -/
def search? (h : History) (text : List Char) (index : Nat) : Option String :=
  if index < h.entries.length then
    (h.entries.take (index + 1)).reverse.find? fun entry => text.isPrefixOf entry.toList
  else none

/-- The newest of all entries that begin with a text. The search starts at the last entry. -/
def newest? (h : History) (text : List Char) : Option String :=
  h.search? text (h.entries.length - 1)

/-- The first line of a history file whose entries are escaped. -/
def mark : String := "#V2"

def escape : Char := '\\'

/-- An entry as it is written to the file. -/
def encode : List Char → List Char
  | [] => []
  | c :: cs =>
    if c = '\n' then escape :: 'n' :: encode cs
    else if c = escape then escape :: escape :: encode cs
    else c :: encode cs

/-- The entry that a line of the file stands for; none if it holds a wrong escape. -/
def decode? : List Char → Option (List Char)
  | [] => some []
  | '\\' :: 'n' :: cs => (decode? cs).map ('\n' :: ·)
  | '\\' :: '\\' :: cs => (decode? cs).map ('\\' :: ·)
  | c :: cs => if c = escape then none else (decode? cs).map (c :: ·)

/-- The entry of a line in a file with escapes. A line with a wrong escape is taken as it is. -/
def decode (line : String) : String :=
  match decode? line.toList with
  | some entry => String.ofList entry
  | none => line

def toBytes (h : History) : Bytes :=
  Text.encode <| String.join <|
    (mark ++ "\n") :: h.entries.map fun entry => String.ofList (encode entry.toList) ++ "\n"

/-- The lines of a file up to the first one that is not text, and whether there is such a one. -/
def readableLines : List Bytes → List String × Bool
  | [] => ([], false)
  | segment :: rest =>
    match Text.decode? segment with
    | none => ([], true)
    | some text =>
      let (lines, broken) := readableLines rest
      (String.ofList (Text.dropLineEnd text.toList) :: lines, broken)

/-- The entries that the lines of a file stand for. -/
def entriesOf : List String → List String
  | [] => []
  | first :: rest => if first = mark then rest.map decode else first :: rest

/-- The history after the entries of a file. Entries that follow a line that is not text are lost,
and those before it count as not saved. -/
def read (h : History) (bytes : Bytes) : History × Option Fault :=
  let (lines, broken) := readableLines (Text.segments 10 bytes)
  let history := h.addAll (entriesOf lines)
  if broken then (history, some .notText) else ({ history with unsaved := 0 }, none)

/-- The history after its file, and what is recorded about it. A file that does not exist is
passed over. -/
def load (h : History) (path : String) (d : Disk) : History × List Event :=
  if d.has path then
    match d.bytesAt path with
    | .error fault => (h, [.historyNotLoaded path fault])
    | .ok bytes =>
      match h.read bytes with
      | (history, none) => (history, [])
      | (history, some fault) => (history, [.historyNotLoaded path fault])
  else (h, [])

/-- Writes the history to its file, unless nothing is new. -/
def save (h : History) (path : String) (d : Disk) : History × Disk × List Event :=
  if h.unsaved = 0 then (h, d, [])
  else
    match d.writeTo path h.toBytes with
    | .error fault => (h, d, [.historyNotSaved path fault])
    | .ok disk => ({ h with unsaved := 0 }, disk, [])

end History

end FileShell
