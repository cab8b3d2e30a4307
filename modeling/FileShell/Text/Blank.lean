import FileShell.Text.Ranges

/-!
# Blank characters

The characters with the Unicode property `White_Space`, and the removal of blanks from the ends
of a text.
-/

namespace FileShell.Text

/-- The code points of blank characters, as ascending inclusive ranges. -/
def blankRanges : List (Nat × Nat) :=
  [(0x9, 0xD), (0x20, 0x20), (0x85, 0x85), (0xA0, 0xA0), (0x1680, 0x1680), (0x2000, 0x200A),
   (0x2028, 0x2029), (0x202F, 0x202F), (0x205F, 0x205F), (0x3000, 0x3000)]

/-- Whether a character is blank: a space, a tab, a line break or any other white space. -/
def isBlank (c : Char) : Bool :=
  inRanges blankRanges c.toNat

/-- The list without the elements at its end that satisfy `p`. -/
def dropEndWhile {α : Type} (p : α → Bool) (xs : List α) : List α :=
  (xs.reverse.dropWhile p).reverse

/-- The characters without the blanks at either end. -/
def trimChars (cs : List Char) : List Char :=
  dropEndWhile isBlank (cs.dropWhile isBlank)

/-- The text without the blanks at either end. -/
def trim (s : String) : String :=
  String.ofList (trimChars s.toList)

end FileShell.Text
