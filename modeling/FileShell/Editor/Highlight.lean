import FileShell.Color
import FileShell.Token.Scan

/-!
# Highlighting

A line with its tokens in color. Only escape sequences are added: the text of the line stays.
-/

namespace FileShell.Editor.Highlight

open Text

/-- The characters of a line whose first one stands at byte `offset`, with the tokens in color. -/
def paintTokens (palette : Palette) (offset : Nat) (cs : List Char) : List Token → List Char
  | [] => cs
  | t :: rest =>
    let gap := t.offset - offset
    match cutAt cs gap with
    | none => cs
    | some (skipped, cs) =>
      match cutAt cs (byteLength t.text.toList) with
      | none => skipped ++ cs
      | some (word, cs) =>
        skipped ++ (Color.wrap (palette.tokenCode t.kind) (String.ofList word)).toList ++
          paintTokens palette t.stop cs rest

def line (palette : Palette) (text : String) : String :=
  String.ofList (paintTokens palette 0 text.toList (Token.words (Token.tokenize text)))

def hint (palette : Palette) (text : String) : String :=
  if text = "" then "" else Color.paint palette.hint text

end FileShell.Editor.Highlight
