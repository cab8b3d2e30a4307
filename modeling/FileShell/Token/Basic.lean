import FileShell.Text.Offset

/-!
# Tokens

A line is read as a list of tokens: its words in order, and an end marker. A token keeps the byte
offset of its text in the line.
-/

namespace FileShell

/-- What role a token can play in a command. -/
inductive TokenKind where
  | keyword
  /-- Any other word, which may name a file. -/
  | filename
  /-- A word between two file names. -/
  | connector
  | endOfInput
  deriving DecidableEq, Repr

def TokenKind.describe : TokenKind → String
  | .keyword => "keyword"
  | .filename => "filename"
  | .connector => "connector"
  | .endOfInput => "end of input"

/-- A classified piece of a line. -/
structure Token where
  kind : TokenKind
  text : String
  /-- The byte offset of the text in the line. -/
  offset : Nat
  deriving DecidableEq, Repr

namespace Token

/-- The end marker of a line whose length in bytes is `offset`. -/
def endMarker (offset : Nat) : Token :=
  ⟨.endOfInput, "", offset⟩

def isEnd (t : Token) : Bool :=
  decide (t.kind = .endOfInput)

/-- The byte offset just past the token's text. -/
def stop (t : Token) : Nat :=
  t.offset + Text.byteLength t.text.toList

/-- The token at the front of a list, unless the line ends there. -/
def front? : List Token → Option Token
  | [] => none
  | t :: _ => if t.isEnd then none else some t

/-- The byte offset of the token at an index; past the last token, where that token stops. -/
def offsetAt (tokens : List Token) (index : Nat) : Nat :=
  match tokens[index]? with
  | some t => t.offset
  | none =>
    match tokens.getLast? with
    | some t => t.stop
    | none => 0

def words (tokens : List Token) : List Token :=
  tokens.filter fun t => !t.isEnd

end Token

end FileShell
