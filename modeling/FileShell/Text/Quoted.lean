import FileShell.Text.Mark

/-!
# Quoted text

Words in trace lines and log events stand between double quotes. Inside, a quote and a backslash
are escaped. Characters that could not be seen for what they are between quotes are named or written
by code: control characters, marks that would be drawn onto the character before them, and letters
that are shown as nothing. Every other character of a word stands for itself.
-/

namespace FileShell.Text

/-- A character by its code, as in `\u{345}`. -/
def escapeByCode (c : Char) : String :=
  "\\u\x7b" ++ String.ofList (Nat.toDigits 16 c.toNat) ++ "\x7d"

/-- Whether a character is a Hangul filler, a letter that is shown as nothing. -/
def isFiller (c : Char) : Bool :=
  c.toNat ∈ [0x115F, 0x1160, 0x3164, 0xFFA0]

/-- Whether a character is a halfwidth sound mark, which is a mark but takes a place of its own. -/
def isHalfwidthMark (c : Char) : Bool :=
  c.toNat ∈ [0xFF9E, 0xFF9F]

def isControl (c : Char) : Bool :=
  decide (c.toNat < 0x20) || (decide (0x7F ≤ c.toNat) && decide (c.toNat < 0xA0))

/-- Whether a character cannot be seen for what it is between quotes. -/
def isObscure (c : Char) : Bool :=
  isControl c || isFiller c || (isJoiningMark c && !isHalfwidthMark c)

/-- How a character is written inside quotes. -/
def escapeChar (c : Char) : String :=
  if c = '"' then "\\\""
  else if c = '\\' then "\\\\"
  else if c = '\n' then "\\n"
  else if c = '\r' then "\\r"
  else if c = '\t' then "\\t"
  else if c.toNat = 0 then "\\0"
  else if isObscure c then escapeByCode c
  else c.toString

/-- The text between double quotes. -/
def quoted (s : String) : String :=
  "\"" ++ String.join (s.toList.map escapeChar) ++ "\""

/-- The texts between double quotes, separated by commas and enclosed in square brackets. -/
def quotedList (texts : List String) : String :=
  "[" ++ ", ".intercalate (texts.map quoted) ++ "]"

end FileShell.Text
