import FileShell.Editor.Expectation
import FileShell.Editor.FileNames
import FileShell.Suggestion.Nearest

/-!
# Completion

What is offered for the word at the cursor: the keywords or the fixed word that begin with it, or
the names of files.
-/

namespace FileShell.Editor

/-- The offset from which a line is replaced, and what can stand there. -/
structure Completion where
  start : Nat
  candidates : List Candidate
  deriving DecidableEq, Repr

namespace Completion

/-- The choices that begin with a word. A choice is put in with a blank after it. -/
def ofChoices (word : String) (choices : List String) : List Candidate :=
  (choices.filter (Suggestion.begins word)).map fun choice => ⟨choice, choice ++ " "⟩

def offer (d : Disk) (home : Option String) (c : Cursor) : Completion :=
  match Expectation.after c.lead with
  | .keyword => ⟨c.wordStart, ofChoices c.word Shape.keywords⟩
  | .literal text => ⟨c.wordStart, ofChoices c.word [text]⟩
  | .filename =>
    let (start, candidates) := FileNames.complete d home c
    ⟨start, candidates⟩
  | .nothing => ⟨c.wordStart, []⟩

end Completion

end FileShell.Editor
