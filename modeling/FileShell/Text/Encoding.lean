/-!
# Bytes as text

Reading bytes as UTF-8. The reader goes through the bytes once and keeps what it still needs of an
unfinished character. A byte that cannot go on ends the unfinished character as one malformed
piece and is then read afresh. `decode?` refuses malformed text; `decodeLossy` puts U+FFFD in the
place of every malformed piece.
-/

namespace FileShell

/-- A sequence of bytes, such as the content of a file. -/
abbrev Bytes := List UInt8

namespace Text

/-- What the reader keeps between two bytes. -/
inductive Unfinished where
  | nothing
  /-- A character of code so far `code` needs `missing + 1` more bytes, the next one between `low`
  and `high`. -/
  | character (missing : Nat) (low high : Nat) (code : Nat)

/-- The pieces that a byte completes when no character is under way, and what is under way after
it. The bounds on the second byte rule out overlong forms, surrogates and codes above U+10FFFF. -/
def firstByte (b : Nat) : List (Option Char) × Unfinished :=
  if b < 0x80 then ([some (Char.ofNat b)], .nothing)
  else if b < 0xC2 then ([none], .nothing)
  else if b < 0xE0 then ([], .character 0 0x80 0xBF (b - 0xC0))
  else if b = 0xE0 then ([], .character 1 0xA0 0xBF 0)
  else if b = 0xED then ([], .character 1 0x80 0x9F 0xD)
  else if b < 0xF0 then ([], .character 1 0x80 0xBF (b - 0xE0))
  else if b = 0xF0 then ([], .character 2 0x90 0xBF 0)
  else if b < 0xF4 then ([], .character 2 0x80 0xBF (b - 0xF0))
  else if b = 0xF4 then ([], .character 2 0x80 0x8F 4)
  else ([none], .nothing)

/-- The pieces that a byte completes, and what is under way after it. -/
def nextByte (b : Nat) : Unfinished → List (Option Char) × Unfinished
  | .nothing => firstByte b
  | .character missing low high code =>
    if low ≤ b ∧ b ≤ high then
      let code := code * 64 + (b - 0x80)
      match missing with
      | 0 => ([some (Char.ofNat code)], .nothing)
      | missing + 1 => ([], .character missing 0x80 0xBF code)
    else
      let (pieces, unfinished) := firstByte b
      (none :: pieces, unfinished)

/-- The characters of the bytes in order, with `none` for each malformed piece. -/
def piecesFrom : Unfinished → Bytes → List (Option Char)
  | .nothing, [] => []
  | .character .., [] => [none]
  | unfinished, b :: bytes =>
    let (pieces, unfinished) := nextByte b.toNat unfinished
    pieces ++ piecesFrom unfinished bytes

/-- All the values of a list of options; none as soon as one is missing. -/
def allPresent {α : Type} : List (Option α) → Option (List α)
  | [] => some []
  | none :: _ => none
  | some x :: rest => (allPresent rest).map (x :: ·)

/-- The text that the bytes encode; none when they are not well-formed UTF-8. -/
def decode? (bytes : Bytes) : Option String :=
  (allPresent (piecesFrom .nothing bytes)).map String.ofList

/-- The text that the bytes encode, with U+FFFD for every malformed piece. -/
def decodeLossy (bytes : Bytes) : String :=
  String.ofList ((piecesFrom .nothing bytes).map (·.getD (Char.ofNat 0xFFFD)))

def encode (s : String) : Bytes :=
  s.toList.flatMap String.utf8EncodeChar

end Text

end FileShell
