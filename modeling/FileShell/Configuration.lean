import FileShell.Disk.Basic
import FileShell.Settings

/-!
# The configuration file

Where the configuration and the history are kept, on what terminal the program runs, and reading
the configuration at the start of a session.
-/

namespace FileShell

structure Environment where
  rc : Option String := none
  home : Option String := none
  terminal : Option String := none
  deriving DecidableEq, Repr

namespace Environment

/-- The path of the configuration file: the one that is set, or else the one at home. -/
def configurationPath (e : Environment) : Option String :=
  match e.rc with
  | some path => some path
  | none => e.home.map fun home => Path.join home ".filecmdrc"

/-- The kinds of terminal on which a line cannot be edited. -/
def plainTerminals : List String := ["dumb", "cons25", "emacs"]

/-- Whether lines cannot be edited on the terminal. Case does not count for ASCII letters. -/
def isPlain (e : Environment) : Bool :=
  e.terminal.any fun kind => decide (kind.toLower ∈ plainTerminals)

def historyPath (e : Environment) : String :=
  Path.join (e.home.getD "") ".filecmd_history"

end Environment

namespace Settings

/-- The settings after a configuration file that reads as `content`, and the errors in it. A file
that does not exist has no effect; one that cannot be read is a fault. -/
def ofReading (s : Settings) (content : Except Fault String) :
    Except Fault (Settings × List Diagnostic) :=
  match content with
  | .ok content => .ok (s.read content)
  | .error fault => if fault.kind = .notFound then .ok (s, []) else .error fault

def load (s : Settings) (e : Environment) (d : Disk) :
    Except Fault (Settings × List Diagnostic) :=
  match e.configurationPath with
  | none => .ok (s, [])
  | some path => s.ofReading (d.textAt path)

end Settings

end FileShell
