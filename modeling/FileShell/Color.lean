import FileShell.Text.Blank
import FileShell.Token.Basic

/-!
# Colors

A color setting is a text: a name, a raw escape sequence, or nothing. `Color.code` gives the
escape sequence that a setting stands for, and a `Palette` holds the settings of everything that
can be colored.
-/

namespace FileShell

namespace Color

def escape : Char := Char.ofNat 0x1B

def reset : String := "\x1b[0m"

/-- The lower-case form of a character as far as it matters for comparing with ASCII names: besides
the capital letters only the Kelvin sign has an ASCII lower-case form. -/
def foldChar (c : Char) : Char :=
  if c.toNat = 0x212A then 'k' else c.toLower

/-- The text with its letters in lower case, for comparing with names. -/
def foldCase (s : String) : String :=
  String.ofList (s.toList.map foldChar)

def named : List (String × String) :=
  [("black", "\x1b[30m"), ("red", "\x1b[31m"), ("green", "\x1b[32m"), ("yellow", "\x1b[33m"),
   ("blue", "\x1b[34m"), ("magenta", "\x1b[35m"), ("cyan", "\x1b[36m"), ("white", "\x1b[37m"),
   ("bright_black", "\x1b[90m"), ("gray", "\x1b[90m"), ("grey", "\x1b[90m"),
   ("bright_red", "\x1b[91m"), ("bright_green", "\x1b[92m"), ("bright_yellow", "\x1b[93m"),
   ("bright_blue", "\x1b[94m"), ("bright_cyan", "\x1b[96m"), ("bold", "\x1b[1m"),
   ("dim", "\x1b[2m")]

def rawMark : List Char := ['a', 'n', 's', 'i', ':']

/-- Whether a setting, without blanks around it, switches color off. -/
def isOff (value : String) : Bool :=
  value = "" || value.toLower = "none"

/-- The escape sequence that a setting stands for, empty for no color. Blanks around the setting
do not count. After `ansi:` the rest is taken as it stands, and so is a setting that holds an
escape character; an unknown name gives no color. -/
def code (value : String) : String :=
  let value := Text.trim value
  if isOff value then ""
  else if rawMark.isPrefixOf value.toList then String.ofList (value.toList.drop rawMark.length)
  else if escape ∈ value.toList then value
  else (named.lookup (foldCase value)).getD ""

def wrap (sequence text : String) : String :=
  if sequence = "" then text else sequence ++ text ++ reset

/-- The text in the color of a setting. -/
def paint (value text : String) : String :=
  wrap (code value) text

end Color

structure Palette where
  promptStatus : String := "red"
  promptCwd : String := "cyan"
  promptSymbol : String := "green"
  keyword : String := "bold"
  filename : String := "none"
  connector : String := "yellow"
  hint : String := "bright_black"
  deriving DecidableEq, Repr

namespace Palette

inductive Part where
  | promptStatus
  | promptCwd
  | promptSymbol
  | keyword
  | filename
  | connector
  | hint
  deriving DecidableEq, Repr

/-- The key of each part in the configuration. -/
def Part.key : Part → String
  | promptStatus => "prompt_status"
  | promptCwd => "prompt_cwd"
  | promptSymbol => "prompt_symbol"
  | keyword => "keyword"
  | filename => "filename"
  | connector => "connector"
  | hint => "hint"

def Part.all : List Part :=
  [promptStatus, promptCwd, promptSymbol, keyword, filename, connector, hint]

/-- The part that a key names. -/
def Part.ofKey? (key : String) : Option Part :=
  all.find? fun part => part.key = key

def get (p : Palette) : Part → String
  | .promptStatus => p.promptStatus
  | .promptCwd => p.promptCwd
  | .promptSymbol => p.promptSymbol
  | .keyword => p.keyword
  | .filename => p.filename
  | .connector => p.connector
  | .hint => p.hint

def set (p : Palette) (part : Part) (value : String) : Palette :=
  match part with
  | .promptStatus => { p with promptStatus := value }
  | .promptCwd => { p with promptCwd := value }
  | .promptSymbol => { p with promptSymbol := value }
  | .keyword => { p with keyword := value }
  | .filename => { p with filename := value }
  | .connector => { p with connector := value }
  | .hint => { p with hint := value }

/-- The escape sequence for tokens of a kind, empty for no color. -/
def tokenCode (p : Palette) : TokenKind → String
  | .keyword => Color.code p.keyword
  | .filename => Color.code p.filename
  | .connector => Color.code p.connector
  | .endOfInput => ""

end Palette

end FileShell
