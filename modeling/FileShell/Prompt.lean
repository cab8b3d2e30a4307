import FileShell.Color
import FileShell.Text.Replace

/-!
# Prompts

What is shown before a line is read. A prompt comes from a theme or from a template, and tells the
status of the last command and the current directory.
-/

namespace FileShell.Prompt

inductive Theme where
  /-- Status, directory and a dollar sign, each in its color. -/
  | classic
  /-- A single angle bracket. -/
  | minimal
  deriving DecidableEq, Repr

def Theme.name : Theme → String
  | .classic => "classic"
  | .minimal => "minimal"

/-- The theme that a setting names; blanks around the name and case do not count. -/
def Theme.ofName? (value : String) : Option Theme :=
  let name := Color.foldCase (Text.trim value)
  if name = "classic" ∨ name = "default" then some .classic
  else if name = "minimal" then some .minimal
  else none

/-- The placeholder for the status, left empty when it is zero. -/
def statusIfAny : String := "\x7bstatus?\x7d"

def statusAlways : String := "\x7bstatus\x7d"

def cwdPlaceholder : String := "\x7bcwd\x7d"

/-- The prompt of a template: first the optional status, then the status, and last the directory
takes the place of its placeholder. -/
def ofTemplate (template : String) (status : Int) (cwd : String) : String :=
  let shown := toString status
  let optional := if status = 0 then "" else shown
  Text.replaceAll cwdPlaceholder cwd
    (Text.replaceAll statusAlways shown (Text.replaceAll statusIfAny optional template))

/-- The prompt of a theme. The classic one shows the status only when it is not zero. -/
def ofTheme (theme : Theme) (palette : Palette) (status : Int) (cwd : String) : String :=
  match theme with
  | .minimal => "> "
  | .classic =>
    let shown :=
      if status = 0 then ""
      else Color.paint palette.promptStatus ("[" ++ toString status ++ "]") ++ " "
    shown ++ Color.paint palette.promptCwd cwd ++ " " ++
      Color.paint palette.promptSymbol "$" ++ " "

end FileShell.Prompt
