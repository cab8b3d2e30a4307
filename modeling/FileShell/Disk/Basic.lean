import FileShell.Disk.Walk

/-!
# Disks

A disk is a file tree together with a current directory. Its operations are those of a file
system: each one takes paths as text, and either fails and leaves the disk as it is, or gives the
disk after it.
-/

namespace FileShell

/-- A file tree seen from a current directory. -/
structure Disk where
  tree : Tree := {}
  cwd : Place := []
  deriving DecidableEq, Repr

namespace Disk

def withTree (d : Disk) (t : Tree) : Disk := { d with tree := t }

def pathText (place : Place) : String :=
  "/" ++ "/".intercalate place

/-- Where a path leads. -/
def reach (d : Disk) (aim : Aim) (path : String) : Except SystemFault Spot :=
  match Path.read path with
  | .error fault => .error fault
  | .ok p =>
    d.tree.walk aim Tree.maxLinks (if p.absolute then [] else d.cwd) p.names p.slashed

/-- What a path stands for, with links followed. -/
inductive Target where
  | directory (place : Place)
  | file (number : Nat) (bytes : Bytes)
  deriving DecidableEq, Repr

/-- Whether two targets are one and the same thing. -/
def Target.same : Target → Target → Bool
  | directory p, directory q => decide (p = q)
  | file m _, file n _ => decide (m = n)
  | directory _, file .. => false
  | file .., directory _ => false

/-- What stands at the end of a walk that follows links. -/
def targetAt (d : Disk) : Spot → Except SystemFault Target
  | .directory place => .ok (.directory place)
  | .named directory name slashed =>
    if Path.tooLong name then .error .nameTooLong
    else
      match d.tree.view (directory ++ [name]) with
      | none => .error .noEntry
      | some .directory => .ok (.directory (directory ++ [name]))
      | some (.file number bytes) =>
        if slashed then .error .notDirectory else .ok (.file number bytes)
      | some (.link ..) => .error .tooManyLinks

/-- What a path stands for. -/
def target (d : Disk) (path : String) : Except Fault Target :=
  if Path.hasNul path then .error .nulInPath
  else
    match d.reach .object path with
    | .error fault => .error (.system fault)
    | .ok spot =>
      match d.targetAt spot with
      | .error fault => .error (.system fault)
      | .ok target => .ok target

def has (d : Disk) (path : String) : Bool :=
  match d.target path with
  | .ok _ => true
  | .error _ => false

def bytesAt (d : Disk) (path : String) : Except Fault Bytes :=
  match d.target path with
  | .error fault => .error fault
  | .ok (.directory _) => .error (.system .isDirectory)
  | .ok (.file _ bytes) => .ok bytes

def textAt (d : Disk) (path : String) : Except Fault String :=
  match d.bytesAt path with
  | .error fault => .error fault
  | .ok bytes =>
    match Text.decode? bytes with
    | none => .error .notText
    | some text => .ok text

/-- The disk with a new object where nothing may stand yet, not even a link that leads nowhere. -/
def createAt (d : Disk) (content : Content) : Spot → Except SystemFault Disk
  | .directory _ => .error .alreadyExists
  | .named directory name slashed =>
    if slashed then .error .isDirectory
    else if Path.tooLong name then .error .nameTooLong
    else
      match d.tree.view (directory ++ [name]) with
      | some _ => .error .alreadyExists
      | none => .ok (d.withTree (d.tree.addObject (directory ++ [name]) content))

def createObject (d : Disk) (path : String) (content : Content) : Except Fault Disk :=
  if Path.hasNul path then .error .nulInPath
  else
    match d.reach .entry path with
    | .error fault => .error (.system fault)
    | .ok spot =>
      match d.createAt content spot with
      | .error fault => .error (.system fault)
      | .ok disk => .ok disk

def create (d : Disk) (path : String) : Except Fault Disk :=
  d.createObject path (.file [])

/-- The disk without the file or link at the end of a walk. -/
def removeAt (d : Disk) : Spot → Except SystemFault Disk
  | .directory _ => .error .isDirectory
  | .named directory name slashed =>
    if Path.tooLong name then .error .nameTooLong
    else
      match d.tree.view (directory ++ [name]) with
      | none => .error .noEntry
      | some .directory => .error .isDirectory
      | some _ =>
        if slashed then .error .notDirectory
        else .ok (d.withTree (d.tree.removeEntry (directory ++ [name])))

def remove (d : Disk) (path : String) : Except Fault Disk :=
  if Path.hasNul path then .error .nulInPath
  else
    match d.reach .entry path with
    | .error fault => .error (.system fault)
    | .ok spot =>
      match d.removeAt spot with
      | .error fault => .error (.system fault)
      | .ok disk => .ok disk

/-- Whether two places hold the same thing: they are one place, or names of one object. -/
def sameEntry (t : Tree) (p q : Place) : Bool :=
  decide (p = q) ||
    match t.entryAt p, t.entryAt q with
    | some (.object m), some (.object n) => decide (m = n)
    | _, _ => false

/-- The disk after what stands at `source` has taken the place `target`, given what is seen at
both. Two names of one thing both stay. A directory replaces only an empty directory, and anything
else replaces anything but a directory. -/
def replaceAt (d : Disk) (source target : Place) (moved : Tree.View) :
    Option Tree.View → Except SystemFault Disk
  | none => .ok (d.withTree (d.tree.move source target))
  | some replaced =>
    if sameEntry d.tree source target then .ok d
    else if moved.isDirectory then
      if !replaced.isDirectory then .error .notDirectory
      else if d.tree.names target = [] then .ok (d.withTree (d.tree.move source target))
      else .error .notEmpty
    else if replaced.isDirectory then .error .isDirectory
    else .ok (d.withTree (d.tree.move source target))

/-- The disk after the entry at the first spot has moved to the second one. -/
def renameAt (d : Disk) : (source target : Spot) → Except SystemFault Disk
  | .named sourceDirectory sourceName sourceSlashed, .named directory name slashed =>
    let source := sourceDirectory ++ [sourceName]
    let target := directory ++ [name]
    if Path.tooLong sourceName then .error .nameTooLong
    else
      match d.tree.view source with
      | none => .error .noEntry
      | some moved =>
        if Path.tooLong name then .error .nameTooLong
        else if moved.isDirectory = false ∧ (sourceSlashed = true ∨ slashed = true) then
          .error .notDirectory
        else if Tree.within source directory then .error .invalid
        else if Tree.within target sourceDirectory then .error .notEmpty
        else d.replaceAt source target moved (d.tree.view target)
  | _, _ => .error .busy

/-- Moves the entry at one path to another. Links are not followed at the last names. -/
def rename (d : Disk) (source target : String) : Except Fault Disk :=
  if Path.hasNul source || Path.hasNul target then .error .nulInPath
  else
    match d.reach .entry source with
    | .error fault => .error (.system fault)
    | .ok sourceSpot =>
      match d.reach .entry target with
      | .error fault => .error (.system fault)
      | .ok targetSpot =>
        match d.renameAt sourceSpot targetSpot with
        | .error fault => .error (.system fault)
        | .ok disk => .ok disk

/-- The disk with an emptied or new file at the end of a walk, and the number of that file. -/
def openAt (d : Disk) : Spot → Except SystemFault (Disk × Nat)
  | .directory _ => .error .isDirectory
  | .named directory name slashed =>
    if slashed then .error .isDirectory
    else if Path.tooLong name then .error .nameTooLong
    else
      match d.tree.view (directory ++ [name]) with
      | none =>
        .ok (d.withTree (d.tree.addObject (directory ++ [name]) (.file [])), d.tree.freshNumber)
      | some (.file number _) => .ok (d.withTree (d.tree.setContent number (.file [])), number)
      | some .directory => .error .isDirectory
      | some (.link ..) => .error .tooManyLinks

/-- Opens the file that a path stands for to write it anew: it is emptied, or created if it does
not exist. -/
def openToWrite (d : Disk) (path : String) : Except Fault (Disk × Nat) :=
  if Path.hasNul path then .error .nulInPath
  else
    match d.reach .creation path with
    | .error fault => .error (.system fault)
    | .ok spot =>
      match d.openAt spot with
      | .error fault => .error (.system fault)
      | .ok opened => .ok opened

def write (d : Disk) (number : Nat) (bytes : Bytes) : Disk :=
  d.withTree (d.tree.setContent number (.file bytes))

/-- Opens the file that a path stands for to read it: its number. Only a file can be read. -/
def openToRead (d : Disk) (path : String) : Except Fault Nat :=
  match d.target path with
  | .error fault => .error fault
  | .ok (.directory _) => .error .notFile
  | .ok (.file number _) => .ok number

/-- Writes what one opened file holds to another one: the number of bytes, and the disk. The bytes
are read only now, as they are after both files have been opened. -/
def transfer (d : Disk) (source target : Nat) : Except Fault Nat × Disk :=
  match d.tree.contentOf source with
  | some (.file bytes) => (.ok bytes.length, d.write target bytes)
  | _ => (.error .notFile, d)

def writeTo (d : Disk) (path : String) (bytes : Bytes) : Except Fault Disk :=
  match d.openToWrite path with
  | .error fault => .error fault
  | .ok (disk, number) => .ok (disk.write number bytes)

/-- The disk seen from the directory that a path stands for. -/
def enter (d : Disk) (path : String) : Except Fault Disk :=
  match d.target path with
  | .error fault => .error fault
  | .ok (.file ..) => .error (.system .notDirectory)
  | .ok (.directory place) => .ok { d with cwd := place }

end Disk

end FileShell
