import FileShell.Command.Basic
import FileShell.Disk.Basic
import FileShell.Event

/-!
# File actions

What commands do to the disk. A command is first turned into an action on paths, with its operands
joined to a root directory; then the action runs. Actions report faults together with the path
they concern, and an action that fails leaves the disk as it was.
-/

namespace FileShell

inductive FileAction where
  | create (path : String)
  | delete (path : String)
  | copy (source target : String)
  | rename (source target : String)
  deriving DecidableEq, Repr

/-- What a command comes to. -/
inductive Plan where
  | leave
  /-- An action, and what is said when it has been done. -/
  | act (action : FileAction) (confirmation : String)
  deriving DecidableEq, Repr

/-- How a command ends if nothing fails. -/
inductive Outcome where
  /-- The action is done, and this confirms it. -/
  | done (confirmation : String)
  | exit
  deriving DecidableEq, Repr

/-- How something that may fail with an `ε` ends, with the disk after it and the events on the
way. -/
structure Execution (ε : Type) where
  result : Except ε Outcome
  disk : Disk
  events : List Event

namespace Command

def operand (c : Command) (index : Nat) : Except Fault String :=
  match c.operands[index]? with
  | some name => .ok name
  | none => .error (.missingOperand c.kind (index + 1))

def bothOperands (c : Command) : Except Fault (String × String) :=
  match c.operand 0, c.operand 1 with
  | .ok source, .ok target => .ok (source, target)
  | .error fault, _ => .error fault
  | _, .error fault => .error fault

/-- What a command comes to when its operands are names in the directory `root`. -/
def plan (c : Command) (root : String) : Except Fault Plan :=
  match c.kind with
  | .exit => .ok .leave
  | .create => (c.operand 0).map fun name => .act (.create (Path.join root name)) ("created " ++ name)
  | .delete => (c.operand 0).map fun name => .act (.delete (Path.join root name)) ("deleted " ++ name)
  | .copy => c.bothOperands.map fun (source, target) =>
    .act (.copy (Path.join root source) (Path.join root target))
      ("copied " ++ source ++ " -> " ++ target)
  | .rename => c.bothOperands.map fun (source, target) =>
    .act (.rename (Path.join root source) (Path.join root target))
      ("renamed " ++ source ++ " -> " ++ target)

end Command

namespace Disk

/-- Whether two paths stand for one and the same thing. A target that does not exist is no
obstacle. -/
def sameFile (d : Disk) (source target : String) : Except Fault Bool :=
  match d.target source with
  | .error fault => .error (.atPath source fault)
  | .ok found =>
    match d.target target with
    | .ok other => .ok (found.same other)
    | .error fault =>
      if fault.kind = .notFound then .ok false else .error (.atPath target fault)

/-- Copies the bytes of the source to the target: the number of bytes copied, and the disk. The
source is opened, and so found to be a file, before the target is. Opening the target empties it,
and the bytes are transferred after that. -/
def copyBytes (d : Disk) (source target : String) : Except Fault Nat × Disk :=
  match d.openToRead source with
  | .error fault => (.error fault, d)
  | .ok number =>
    match d.openToWrite target with
    | .error fault => (.error fault, d)
    | .ok (opened, other) => opened.transfer number other

/-- Copies a file over another one or to a new place. Copying a file onto itself is refused, since
opening it as the target would empty it. -/
def copy (d : Disk) (source target : String) : Except Fault Nat × Disk :=
  match d.sameFile source target with
  | .error fault => (.error fault, d)
  | .ok true => (.error (.atPath source .sameFile), d)
  | .ok false =>
    match d.copyBytes source target with
    | (.error fault, disk) => (.error (.atPath source fault), disk)
    | (.ok bytes, disk) => (.ok bytes, disk)

end Disk

namespace FileAction

/-- The action's outcome when a disk operation decides it: a failure concerns `path`. -/
def settle (d : Disk) (path : String) : Except Fault Disk → Except Fault Unit × Disk
  | .error fault => (.error (.atPath path fault), d)
  | .ok disk => (.ok (), disk)

/-- Runs an action: its result, the disk after it, and the events on the way. -/
def run (a : FileAction) (d : Disk) : Except Fault Unit × Disk × List Event :=
  match a with
  | .create path =>
    let (result, disk) := settle d path (d.create path)
    (result, disk, [.create path])
  | .delete path =>
    let (result, disk) := settle d path (d.remove path)
    (result, disk, [.delete path])
  | .rename source target =>
    let (result, disk) := settle d source (d.rename source target)
    (result, disk, [.rename source target])
  | .copy source target =>
    match d.copy source target with
    | (.error fault, disk) => (.error fault, disk, [.copy source target])
    | (.ok bytes, disk) => (.ok (), disk, [.copy source target, .copied bytes])

end FileAction

/-- Executes a command with its operands taken as names in the directory `root`. -/
def Command.execute (c : Command) (root : String) (d : Disk) : Execution Fault :=
  match c.plan root with
  | .error fault => ⟨.error fault, d, []⟩
  | .ok .leave => ⟨.ok .exit, d, []⟩
  | .ok (.act action confirmation) =>
    match action.run d with
    | (.error fault, disk, events) => ⟨.error fault, disk, events⟩
    | (.ok (), disk, events) => ⟨.ok (.done confirmation), disk, events⟩

end FileShell
