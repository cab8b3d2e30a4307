import FileShell.Command.Rejection
import FileShell.Disk.Fault

/-!
# Events

What the program records in its log: the judgement on each line, each file action, and trouble
with the history file.
-/

namespace FileShell

inductive Event.Level where
  | debug
  | warn
  deriving DecidableEq, Repr

inductive Event where
  | rejected (reason : Reason)
  | accepted (kind : CommandKind) (operands : Nat)
  | create (path : String)
  | delete (path : String)
  | copy (source target : String)
  | copied (bytes : Nat)
  | rename (source target : String)
  /-- The history file cannot be read. -/
  | historyNotLoaded (path : String) (fault : Fault)
  /-- The history file cannot be written. -/
  | historyNotSaved (path : String) (fault : Fault)
  deriving DecidableEq, Repr

namespace Event

def Level.name : Level → String
  | debug => "DEBUG"
  | warn => "WARN"

def level : Event → Level
  | historyNotLoaded .. => .warn
  | historyNotSaved .. => .warn
  | _ => .debug

def text : Event → String
  | rejected reason => "command event=rejected reason=" ++ reason.record
  | accepted kind operands =>
    "command event=accepted kind=" ++ kind.name ++ " operands=" ++ toString operands
  | create path => "fileop event=create path=" ++ path
  | delete path => "fileop event=delete path=" ++ path
  | copy source target => "fileop event=copy src=" ++ source ++ " dst=" ++ target
  | copied bytes => "fileop event=copy done bytes=" ++ toString bytes
  | rename source target => "fileop event=rename src=" ++ source ++ " dst=" ++ target
  | historyNotLoaded path fault => "history event=load path=" ++ path ++ " error=" ++ fault.message
  | historyNotSaved path fault => "history event=save path=" ++ path ++ " error=" ++ fault.message

def record (e : Event) : String :=
  e.level.name ++ " " ++ e.text

end Event

end FileShell
