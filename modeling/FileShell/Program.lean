import FileShell.History
import FileShell.Session

/-!
# The program

A whole run: the arguments are read, the working directory is entered, the configuration is
loaded, and then the session runs on standard input.
-/

namespace FileShell.Program

structure Start where
  arguments : List String
  environment : Environment := {}
  /-- Whether someone types the lines of the input. -/
  interactive : Bool := false

/-- The session that the options ask for in a directory, and what its start prints, when the
configuration has been loaded. A configuration that cannot be loaded leaves the settings alone. -/
def openSession (interactive prompting : Bool) (options : Options) (root : String)
    (loaded : Except Fault (Settings × List Diagnostic)) : Session × Output :=
  let (settings, report) : Settings × String :=
    match loaded with
    | .ok (settings, errors) =>
      (settings, String.join (errors.map fun error => error.plain ++ "\n"))
    | .error fault => ({}, "config error: " ++ fault.message ++ "\n")
  ({ settings := { settings with strict := options.strict.getD settings.strict }
     root := root
     trace := options.trace
     interactive := interactive
     prompting := interactive && prompting },
   { err := report })

/-- The history that a session on a disk begins with. It is only kept for a reader. -/
def openHistory (start : Start) (d : Disk) : History :=
  if start.interactive then (History.load {} start.environment.historyPath d).1 else {}

/-- Runs a session with these options on an input. Prompts are printed on a plain terminal only:
elsewhere they are shown while a line is edited, and the lines of a given input are not. -/
def runSession (start : Start) (options : Options) (input : Bytes) (d : Disk) : Ending :=
  let (session, output) := openSession start.interactive start.environment.isPlain options
    (Disk.pathText d.cwd) (Settings.load {} start.environment d)
  let ending := session.run ⟨d, 0⟩ (Input.segments input)
  let (_, disk, _) := (openHistory start d).save start.environment.historyPath ending.disk
  ⟨output ++ ending.output, ending.code, disk⟩

def help : Output :=
  { out := Arguments.usage ++ "\n" }

def wrongUsage (error : ArgumentError) : Output :=
  { err := "error: " ++ error.message ++ "\n" ++ Arguments.usage ++ "\n" }

def noDirectory (root : String) (fault : Fault) : Output :=
  { err := "error: " ++ root ++ ": " ++ fault.message ++ "\n" }

def run (start : Start) (input : Bytes) (d : Disk) : Ending :=
  match Arguments.read start.arguments with
  | .ok .help => ⟨help, 0, d⟩
  | .error error =>
    ⟨wrongUsage error, 2, d⟩
  | .ok (.run options) =>
    match options.root with
    | none => runSession start options input d
    | some root =>
      match d.enter root with
      | .ok inside => runSession start options input inside
      | .error fault => ⟨noDirectory root fault, 1, d⟩

end FileShell.Program
