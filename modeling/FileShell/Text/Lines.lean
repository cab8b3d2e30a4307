/-!
# The lines of a text

A line ends after a line feed, and the end of the text ends the last line unless that line is
empty. `segments` cuts and keeps the line feeds; `lines` drops them, together with one carriage
return before each.
-/

namespace FileShell.Text

/-- The list cut after each `mark`; a rest without a mark is a segment too. -/
def segments {α : Type} [DecidableEq α] (mark : α) : List α → List (List α)
  | [] => []
  | x :: xs =>
    if x = mark then [x] :: segments mark xs
    else
      match segments mark xs with
      | [] => [[x]]
      | segment :: rest => (x :: segment) :: rest

/-- A line without its line feed, and without one carriage return before that line feed. -/
def dropLineEnd (segment : List Char) : List Char :=
  match segment.reverse with
  | '\n' :: '\r' :: rest => rest.reverse
  | '\n' :: rest => rest.reverse
  | _ => segment

def lines (s : String) : List String :=
  (segments '\n' s.toList).map fun segment => String.ofList (dropLineEnd segment)

end FileShell.Text
