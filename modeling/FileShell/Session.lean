import FileShell.Arguments
import FileShell.Configuration
import FileShell.Input
import FileShell.Line

/-!
# Sessions

A session reads the input line by line and executes each line. It is a fold over the segments of
the input: between two lines only the disk and the status of the last command are kept, and an
accepted `exit` or the end of the input ends it.
-/

namespace FileShell

structure Output where
  out : String := ""
  err : String := ""
  deriving DecidableEq, Repr

/-- What is printed one after the other. -/
def Output.append (a b : Output) : Output :=
  ⟨a.out ++ b.out, a.err ++ b.err⟩

instance : Append Output := ⟨Output.append⟩

structure Session where
  settings : Settings
  /-- The absolute path of the current directory, which operands are names in. -/
  root : String
  /-- Whether to show the tokens and command of each line. -/
  trace : Bool
  /-- Whether someone types the lines. -/
  interactive : Bool
  /-- Whether a prompt is printed before each line. -/
  prompting : Bool

structure Progress where
  disk : Disk
  /-- The status of the last command. -/
  status : Nat := 0

/-- Whether a session goes on. -/
inductive Verdict where
  /-- The next line is read, with this as the status of the last command. -/
  | goOn (status : Nat)
  /-- The session ends with this code. -/
  | leave (code : Nat)
  deriving DecidableEq, Repr

structure Ending where
  output : Output
  code : Nat
  disk : Disk

namespace Session

def prompt (s : Session) (status : Nat) : Output :=
  { out := s.settings.prompt s.prompting status s.root }

def traceOutput (s : Session) (line : String) : Output :=
  if s.trace then
    { err := String.join ((Line.trace s.settings.strict line).map (· ++ "\n")) }
  else {}

/-- What is printed when a line has been executed, and whether the session goes on. -/
def tell (s : Session) (line : String) : Except Diagnostic Outcome → Output × Verdict
  | .ok .exit => (s.traceOutput line, .leave 0)
  | .ok (.done confirmation) => (s.traceOutput line ++ { out := confirmation ++ "\n" }, .goOn 0)
  | .error diagnostic =>
    (s.traceOutput line ++ { err := diagnostic.render line ++ "\n" }, .goOn diagnostic.status)

inductive Reading where
  | blank
  | unreadable (fault : Fault)
  /-- A line, without the blanks around it. -/
  | line (text : String)
  deriving DecidableEq, Repr

/-- What a segment of the input holds. -/
def read (s : Session) (segment : Bytes) : Reading :=
  match if s.interactive then Input.readTyped segment else Input.readLine segment with
  | .error fault => .unreadable fault
  | .ok line =>
    let line := Text.trim line
    if line = "" then .blank else .line line

def complaint (fault : Fault) : Output :=
  { err := "error: " ++ fault.message ++ "\n" }

/-- Executes what a segment of the input holds: what is printed, whether the session goes on, and
the disk. A segment that is not text is reported, and a blank one does nothing. -/
def step (s : Session) (p : Progress) (segment : Bytes) : Output × Verdict × Disk :=
  match s.read segment with
  | .blank => ({}, .goOn p.status, p.disk)
  | .unreadable fault => (complaint fault, .goOn p.status, p.disk)
  | .line line =>
    let execution := Line.execute s.settings.strict s.root line p.disk
    let (output, verdict) := s.tell line execution.result
    (output, verdict, execution.disk)

def closing (s : Session) : Output :=
  { out := if s.interactive then "\n" else "" }

/-- Runs the session on the segments of the input. -/
def run (s : Session) (p : Progress) : List Bytes → Ending
  | [] => ⟨s.prompt p.status ++ s.closing, p.status, p.disk⟩
  | segment :: rest =>
    match s.step p segment with
    | (output, .leave code, disk) => ⟨s.prompt p.status ++ output, code, disk⟩
    | (output, .goOn status, disk) =>
      let ending := s.run ⟨disk, status⟩ rest
      { ending with output := s.prompt p.status ++ output ++ ending.output }

end Session

end FileShell
