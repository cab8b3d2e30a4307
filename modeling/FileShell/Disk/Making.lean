import FileShell.Disk.Basic

/-!
# Making and listing trees

Ways to put a tree together and to read it off again: directories, links, hard links, and the list
of everything below a directory.
-/

namespace FileShell.Disk

/-- The disk with another name, at the end of a walk, for what an entry refers to. -/
def addEntryAt (d : Disk) (entry : Entry) : Spot → Except SystemFault Disk
  | .directory _ => .error .alreadyExists
  | .named directory name _ =>
    if Path.tooLong name then .error .nameTooLong
    else
      match d.tree.view (directory ++ [name]) with
      | some _ => .error .alreadyExists
      | none => .ok (d.withTree (d.tree.setEntry (directory ++ [name]) entry))

def addEntry (d : Disk) (path : String) (entry : Entry) : Except Fault Disk :=
  if Path.hasNul path then .error .nulInPath
  else
    match d.reach .entry path with
    | .error fault => .error (.system fault)
    | .ok spot =>
      match d.addEntryAt entry spot with
      | .error fault => .error (.system fault)
      | .ok disk => .ok disk

def makeDirectory (d : Disk) (path : String) : Except Fault Disk :=
  d.addEntry path .directory

def makeLink (d : Disk) (path target : String) : Except Fault Disk :=
  d.createObject path (.link target)

/-- Makes `path` another name of the file or link that `existing` names. -/
def makeHardLink (d : Disk) (existing path : String) : Except Fault Disk :=
  match d.reach .entry existing with
  | .error fault => .error (.system fault)
  | .ok (.directory _) => .error (.system .isDirectory)
  | .ok (.named directory name _) =>
    match d.tree.entryAt (directory ++ [name]) with
    | none => .error (.system .noEntry)
    | some .directory => .error (.system .isDirectory)
    | some (.object number) => d.addEntry path (.object number)

/-- The order of texts by their characters, which is also that of their bytes. -/
def textLE (a b : String) : Bool := decide (a ≤ b)

/-- Everything below a directory: the path from there and what is seen, ordered by path. -/
def listing (d : Disk) (top : Place) : List (String × Tree.View) :=
  let found := d.tree.entries.filterMap fun e =>
    if Tree.within top e.1 ∧ e.1 ≠ top then
      (d.tree.view e.1).map fun view => ("/".intercalate (e.1.drop top.length), view)
    else none
  found.mergeSort fun a b => textLE a.1 b.1

end FileShell.Disk
