import FileShell.Shape
import FileShell.Text.Alphanumeric

/-!
# From a line to its tokens

A word is a run of word characters, and one dot may join it to a second run, so that `name.ext` is
one word while `a.b.c` is the words `a.b` and `c`. All other characters separate words and are
skipped, so every line has tokens; whether they make a command is for the validator to say.
-/

namespace FileShell.Token

open Text

/-- The word at the front of the characters and the rest: a run of word characters and, where a
dot and a further word character follow, the dot and the run after it. -/
def splitWord (cs : List Char) : List Char × List Char :=
  match cs.dropWhile isWordChar with
  | '.' :: c :: rest =>
    if isWordChar c then
      (cs.takeWhile isWordChar ++ '.' :: (c :: rest).takeWhile isWordChar,
        (c :: rest).dropWhile isWordChar)
    else (cs.takeWhile isWordChar, '.' :: c :: rest)
  | rest => (cs.takeWhile isWordChar, rest)

/-- The two parts of a split make up the characters. -/
theorem splitWord_append (cs : List Char) : (splitWord cs).1 ++ (splitWord cs).2 = cs := by
  have hcut := List.takeWhile_append_dropWhile (p := isWordChar) (l := cs)
  unfold splitWord
  split
  · next c rest hrest =>
    rw [hrest] at hcut
    split
    · simp only [List.append_assoc, List.cons_append, List.takeWhile_append_dropWhile]
      exact hcut
    · exact hcut
  · exact hcut

/-- A word is taken whenever the characters begin with a word character. -/
theorem length_splitWord_rest_lt {c : Char} {cs : List Char} (hc : isWordChar c = true) :
    (splitWord (c :: cs)).2.length < (c :: cs).length := by
  have hlen := congrArg List.length (splitWord_append (c :: cs))
  have hpos : 0 < (splitWord (c :: cs)).1.length := by
    unfold splitWord
    split
    · split <;> simp [hc]
    · simp [hc]
  rw [List.length_append] at hlen
  omega

def kindOf (word : String) : TokenKind :=
  if Shape.isKeyword word then .keyword
  else if word ∈ Shape.connectors then .connector
  else .filename

/-- The word tokens of the characters, of which the first stands at byte `offset` of the line. -/
def scan (offset : Nat) : List Char → List Token
  | [] => []
  | c :: cs =>
    if _h : isWordChar c then
      let word := splitWord (c :: cs)
      ⟨kindOf (String.ofList word.1), String.ofList word.1, offset⟩ ::
        scan (offset + byteLength word.1) word.2
    else scan (offset + c.utf8Size) cs
termination_by cs => cs.length
decreasing_by
  · exact length_splitWord_rest_lt ‹_›
  · simp

/-- The tokens of a line: its words and an end marker. -/
def tokenize (line : String) : List Token :=
  scan 0 line.toList ++ [endMarker (byteLength line.toList)]

end FileShell.Token
