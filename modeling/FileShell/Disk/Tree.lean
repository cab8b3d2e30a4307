import FileShell.Text.Encoding

/-!
# File trees

A tree of directories with files and symbolic links. Every entry has a *place*: the names that
lead to it from the top, without links or dots. Files and links are numbered objects, and entries
with the same number are hard links to one object. Directories are known by their place.
-/

namespace FileShell

/-- The names that lead to an entry from the top of the tree. The top itself is the empty list. -/
abbrev Place := List String

inductive Content where
  | file (bytes : Bytes)
  | link (target : String)
  deriving DecidableEq, Repr

inductive Entry where
  | directory
  /-- A name of the object with this number. -/
  | object (number : Nat)
  deriving DecidableEq, Repr

/-- A file tree. The top is a directory without being listed. -/
structure Tree where
  entries : List (Place × Entry) := []
  objects : List (Nat × Content) := []
  deriving DecidableEq, Repr

namespace Tree

def entryAt (t : Tree) (place : Place) : Option Entry :=
  if place = [] then some .directory else t.entries.lookup place

def contentOf (t : Tree) (number : Nat) : Option Content :=
  t.objects.lookup number

inductive View where
  | directory
  | file (number : Nat) (bytes : Bytes)
  | link (number : Nat) (target : String)
  deriving DecidableEq, Repr

/-- What can be seen at a place, with the number and content of an object. -/
def view (t : Tree) (place : Place) : Option View :=
  match t.entryAt place with
  | none => none
  | some .directory => some .directory
  | some (.object number) =>
    match t.contentOf number with
    | none => none
    | some (.file bytes) => some (.file number bytes)
    | some (.link target) => some (.link number target)

def View.isDirectory : View → Bool
  | directory => true
  | file .. => false
  | link .. => false

/-- The number that an entry refers to; zero for a directory. -/
def numberOf : Entry → Nat
  | .directory => 0
  | .object number => number

/-- A number that no object has and that no entry refers to. -/
def freshNumber (t : Tree) : Nat :=
  (t.objects.map Prod.fst ++ t.entries.map fun e => numberOf e.2).foldr max 0 + 1

def setEntry (t : Tree) (place : Place) (entry : Entry) : Tree :=
  { t with entries := (place, entry) :: t.entries.filter fun e => e.1 ≠ place }

def removeEntry (t : Tree) (place : Place) : Tree :=
  { t with entries := t.entries.filter fun e => e.1 ≠ place }

def setContent (t : Tree) (number : Nat) (content : Content) : Tree :=
  { t with objects := (number, content) :: t.objects.filter fun o => o.1 ≠ number }

def addObject (t : Tree) (place : Place) (content : Content) : Tree :=
  (t.setContent t.freshNumber content).setEntry place (.object t.freshNumber)

/-- Whether one place is another or lies below it. -/
def within (top place : Place) : Bool :=
  top.isPrefixOf place

def names (t : Tree) (place : Place) : List String :=
  t.entries.filterMap fun e =>
    if e.1.dropLast = place ∧ e.1 ≠ [] then e.1.getLast? else none

/-- A place after what stood at `source` has moved to `target`, together with all below it. -/
def movePlace (source target place : Place) : Place :=
  if within source place then target ++ place.drop source.length else place

/-- The tree after what stands at `source` has moved to `target`, where nothing is kept. -/
def move (t : Tree) (source target : Place) : Tree :=
  { t with entries := (t.entries.filter fun e => !within target e.1).map fun e =>
      (movePlace source target e.1, e.2) }

end Tree

end FileShell
