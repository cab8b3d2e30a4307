import FileShell.Disk.Path
import FileShell.Disk.Tree

/-!
# Walking along a path

How a path leads through the tree. Every name but the last must lead to a directory, and symbolic
links among them are followed. What happens at the last name depends on what the caller wants:
`Aim.entry` stops at the entry itself, `Aim.object` follows a link there too, and `Aim.creation`
does so unless a slash follows the name. At most `maxLinks` links are followed in all.
-/

namespace FileShell

inductive Aim where
  /-- The entry of the last name, which may be a link. -/
  | entry
  /-- What the last name stands for. -/
  | object
  /-- What the last name stands for, which may have to be created. -/
  | creation
  deriving DecidableEq, Repr

/-- Whether a link at the last name is followed; `slashed` tells if a slash follows that name. -/
def Aim.follows : Aim → (slashed : Bool) → Bool
  | entry, _ => false
  | object, _ => true
  | creation, slashed => !slashed

inductive Spot where
  /-- At a directory that the walk did not enter by name last. -/
  | directory (place : Place)
  /-- At a name in a directory, with or without a slash after it. The name may be free. -/
  | named (directory : Place) (name : String) (slashed : Bool)
  deriving DecidableEq, Repr

namespace Tree

/-- How far names lead without following a link. -/
inductive Stretch where
  /-- All names led to directories. -/
  | directory (place : Place)
  /-- The last name is left to be looked up. -/
  | named (directory : Place) (name : String)
  /-- A link in this directory has to be followed before the remaining names. -/
  | link (directory : Place) (target : String) (rest : List String)
  | fault (fault : SystemFault)

/-- Follows names from a directory up to the first link. A link at the last name counts only if
`follow` is set. -/
def stretch (t : Tree) (follow : Bool) (place : Place) : List String → Stretch
  | [] => .directory place
  | name :: rest =>
    if name = "." then t.stretch follow place rest
    else if name = ".." then t.stretch follow place.dropLast rest
    else if rest = [] ∧ follow = false then .named place name
    else if Path.tooLong name then .fault .nameTooLong
    else
      match t.view (place ++ [name]) with
      | some (.link _ target) => .link place target rest
      | some .directory =>
        if rest = [] then .named place name else t.stretch follow (place ++ [name]) rest
      | some (.file ..) => if rest = [] then .named place name else .fault .notDirectory
      | none => if rest = [] then .named place name else .fault .noEntry

def maxLinks : Nat := 40

/-- Walks along names from a directory and follows at most `links` links. -/
def walk (t : Tree) (aim : Aim) (links : Nat) (place : Place) (names : List String)
    (slashed : Bool) : Except SystemFault Spot :=
  match t.stretch (aim.follows slashed) place names with
  | .directory place => .ok (.directory place)
  | .named directory name => .ok (.named directory name slashed)
  | .fault fault => .error fault
  | .link directory target rest =>
    match links with
    | 0 => .error .tooManyLinks
    | links + 1 =>
      let path := Path.parse target
      t.walk aim links (if path.absolute then [] else directory) (path.names ++ rest)
        (slashed || (decide (rest = []) && path.slashed))

end Tree

end FileShell
