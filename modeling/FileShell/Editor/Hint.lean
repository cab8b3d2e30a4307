import FileShell.Editor.Cursor
import FileShell.Editor.Expectation
import FileShell.History
import FileShell.Suggestion.Nearest

/-!
# Hints

What is shown after the cursor while a line is typed. The rest of the newest history entry that
begins with the line comes first; otherwise the word at the cursor is finished or corrected, and
after a blank the slots that are still missing are named.
-/

namespace FileShell.Editor.Hint

/-- The rest of a candidate after a word, or the candidate itself if the word does not begin it.
Nothing is shown for a word that is finished. -/
def ofSuggestion (word candidate : String) : Option String :=
  if Suggestion.begins word candidate then
    match candidate.toList.drop word.toList.length with
    | [] => none
    | rest => some (String.ofList rest)
  else some (" -> " ++ candidate)

/-- The labels of the slots that are missing after a text. -/
def missing? (text : String) : Option String :=
  match missingSlots? text with
  | none => none
  | some [] => none
  | some slots => some (" ".intercalate (slots.map Slot.label))

/-- The hint that the shape of the command gives at the end of a line. -/
def ofShape (c : Cursor) : Option String :=
  if c.word = "" then
    if c.followsBlank then missing? (String.ofList c.before) else none
  else
    match (Expectation.after c.lead).choices? with
    | none => none
    | some choices =>
      match Suggestion.best c.word choices with
      | none => none
      | some candidate => ofSuggestion c.word candidate

/-- What the history says about a line whose cursor is at or past its end. -/
inductive Recall where
  | rest (text : String)
  | nothing
  /-- The cursor is at no place of the entry. -/
  | misplaced
  deriving DecidableEq, Repr

/-- The rest of the newest entry that begins with the line, from the cursor on. If that entry is
the line itself, older ones are not asked. -/
def ofHistory (h : History) (line : String) (offset : Nat) : Recall :=
  if line = "" then .nothing
  else
    match h.newest? line.toList with
    | none => .nothing
    | some entry =>
      if entry = line then .nothing
      else
        match Text.cutAt entry.toList offset with
        | none => .misplaced
        | some (_, []) => .nothing
        | some (_, rest) => .rest (String.ofList rest)

/-- The hint for a line with the cursor at a byte offset; there is none unless the cursor is at the
end. Fails if the cursor is past the end and at no place of a fitting entry either. -/
def find (h : History) (line : String) (offset : Nat) : Option (Option String) :=
  if offset < Text.byteLength line.toList then some none
  else
    match ofHistory h line offset with
    | .rest text => some (some text)
    | .misplaced => none
    | .nothing => (Cursor.at? line offset).map ofShape

end FileShell.Editor.Hint
