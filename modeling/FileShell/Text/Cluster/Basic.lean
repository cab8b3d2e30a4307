import FileShell.Text.Cluster.Class

/-!
# Clusters

What a reader takes for one character may be several: a letter with its accents, the two letters
of a flag, pictographs that are joined, a syllable. `clusters` cuts a text into such pieces. It goes
through the text once and joins a character to the piece before it or begins a new piece; what it
has to know about the characters before is kept in a `Context`.
-/

namespace FileShell.Text

/-- How far a chain has come that a link may continue. -/
inductive Chain where
  | absent
  | begun
  /-- A link has been read, and the next member of the chain is joined. -/
  | linked
  deriving DecidableEq, Repr

/-- What the characters before a place say about it. -/
structure Context where
  /-- The class of the last character. -/
  last : MeetingClass
  /-- Whether the last character is the first letter of a flag. -/
  halfFlag : Bool := false
  /-- A pictograph with its marks, linked by a joiner. -/
  picture : Chain := .absent
  /-- A consonant with its marks, linked by a linker. -/
  conjunct : Chain := .absent

namespace Context

/-- The chain of pictographs after a character of a class. -/
def nextPicture (picture : Chain) : MeetingClass → Chain
  | .pictograph => .begun
  | .mark => if picture = .begun then .begun else .absent
  | .joiner => if picture = .begun then .linked else .absent
  | _ => .absent

/-- The chain of consonants after a character of a class. -/
def nextConjunct (conjunct : Chain) (c : Char) : MeetingClass → Chain
  | .consonant => .begun
  | .joiner => conjunct
  | .mark =>
    if isNonJoiner c then .absent
    else if isLinker c ∧ conjunct = .begun then .linked
    else conjunct
  | _ => .absent

/-- What is known after one more character of a class. -/
def next (b : Context) (c : Char) (cls : MeetingClass) : Context where
  last := cls
  halfFlag := decide (cls = .regional) && !b.halfFlag
  picture := nextPicture b.picture cls
  conjunct := nextConjunct b.conjunct c cls

/-- What is known after the first character of a text. -/
def start (c : Char) : Context :=
  next { last := .control } c (.ofChar c)

/-- Whether a character of a class, which neither stands alone nor goes with every character,
belongs to the piece before it. -/
def continues (b : Context) : MeetingClass → Bool
  | .leading | .openSyllable | .closedSyllable => decide (b.last = .leading)
  | .vowel => decide (b.last ∈ [.leading, .vowel, .openSyllable])
  | .trailing => decide (b.last ∈ [.vowel, .openSyllable, .trailing, .closedSyllable])
  | .consonant => decide (b.conjunct = .linked)
  | .pictograph => decide (b.picture = .linked)
  | .regional => b.halfFlag
  | _ => false

/-- Whether a character of a class belongs to the piece before it. -/
def joins (b : Context) (cls : MeetingClass) : Bool :=
  if b.last = .carriageReturn ∧ cls = .lineFeed then true
  else if b.last.standsAlone || cls.standsAlone then false
  else cls.attaches || decide (b.last = .prepended) || b.continues cls

end Context

/-- The pieces of a text of which `piece` has been read, newest character first, and the given
characters follow. -/
def clustersFrom (b : Context) (piece : List Char) : List Char → List (List Char)
  | [] => [piece.reverse]
  | c :: cs =>
    let cls := MeetingClass.ofChar c
    if b.joins cls then clustersFrom (b.next c cls) (c :: piece) cs
    else piece.reverse :: clustersFrom (b.next c cls) [c] cs

def clusters : List Char → List (List Char)
  | [] => []
  | c :: cs => clustersFrom (Context.start c) [c] cs

/-- Nothing is lost: the pieces make up what had been read and what follows. -/
theorem flatten_clustersFrom (b : Context) (piece cs : List Char) :
    (clustersFrom b piece cs).flatten = piece.reverse ++ cs := by
  induction cs generalizing b piece with
  | nil => simp [clustersFrom]
  | cons c cs ih =>
    simp only [clustersFrom]
    split <;> simp [ih]

/-- The pieces of a text make it up. -/
theorem flatten_clusters (cs : List Char) : (clusters cs).flatten = cs := by
  cases cs with
  | nil => rfl
  | cons c cs => simp [clusters, flatten_clustersFrom]

end FileShell.Text
