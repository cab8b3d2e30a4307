import FileShell.Command.Validation
import FileShell.Diagnostic
import FileShell.FileAction
import FileShell.Suggestion.Nearest

/-!
# Executing a line

A line is read as a command and the command is executed. If either fails, a diagnostic tells why.
-/

namespace FileShell.Line

/-- The diagnostic for a rejected line. An unknown first word is compared with the keywords, and
one that it may stand for is the hint. -/
def diagnose (r : Rejection) : Diagnostic :=
  match r.reason with
  | .unknownCommand word =>
    match Suggestion.best word Shape.keywords with
    | some keyword =>
      { Diagnostic.ofRejection r with hint := some ("did you mean '" ++ keyword ++ "'?") }
    | none => Diagnostic.ofRejection r
  | _ => Diagnostic.ofRejection r

def failure (fault : Fault) : Diagnostic :=
  { trouble := .file, message := fault.message }

/-- What a line comes to with operands taken as names in the directory `root`. -/
def plan (strict : Bool) (root line : String) : Except Diagnostic Plan :=
  match Command.ofLine strict line with
  | .error r => .error (diagnose r)
  | .ok command => (command.plan root).mapError failure

/-- Executes a line with its action performed elsewhere. -/
def executeWith {m : Type → Type} [Monad m] (perform : FileAction → m (Except Fault Unit))
    (strict : Bool) (root line : String) : m (Except Diagnostic Outcome) := do
  match plan strict root line with
  | .error diagnostic => pure (.error diagnostic)
  | .ok .leave => pure (.ok .exit)
  | .ok (.act action confirmation) =>
    match ← perform action with
    | .error fault => pure (.error (failure fault))
    | .ok () => pure (.ok (.done confirmation))

/-- Executes a line with operands taken as names in the directory `root`. -/
def execute (strict : Bool) (root line : String) (d : Disk) : Execution Diagnostic :=
  match Command.ofLine strict line with
  | .error r => ⟨.error (diagnose r), d, [.rejected r.reason]⟩
  | .ok command =>
    let execution := command.execute root d
    ⟨execution.result.mapError failure, execution.disk,
      .accepted command.kind command.operands.length :: execution.events⟩

def showToken (t : Token) : String :=
  match t.kind with
  | .keyword => "Keyword(" ++ t.text ++ ")"
  | .filename => "Filename(" ++ t.text ++ ")"
  | .connector => "Connector(" ++ t.text ++ ")"
  | .endOfInput => "EndOfInput"

/-- The trace of a line: its tokens and, unless it is rejected, its command. -/
def trace (strict : Bool) (line : String) : List String :=
  ("trace: tokens: " ++ " ".intercalate ((Token.tokenize line).map showToken)) ::
    match Command.ofLine strict line with
    | .error _ => []
    | .ok command =>
      ["trace: command: " ++ command.kind.name ++ " " ++ Text.quotedList command.operands]

end FileShell.Line
