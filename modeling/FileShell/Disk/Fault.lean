import FileShell.Shape

/-!
# Faults

Why a file operation fails. Faults of the system carry the system's number and text; the others
are found before the system is asked, or after it has answered. Callers tell them apart by their
kind.
-/

namespace FileShell

/-- The kinds of faults. -/
inductive FaultKind where
  | notFound
  | resourceBusy
  | alreadyExists
  | notADirectory
  | isADirectory
  | invalidInput
  | invalidFilename
  | directoryNotEmpty
  | filesystemLoop
  | invalidData
  /-- The kind of a refusal that has no name here, by the system's number. -/
  | numbered (number : Nat)
  deriving DecidableEq, Repr

inductive SystemFault where
  /-- A file or directory on the way does not exist. -/
  | noEntry
  /-- The directory is in use as the current or parent directory. -/
  | busy
  | alreadyExists
  /-- A name used as a directory belongs to something else. -/
  | notDirectory
  /-- A name used as a file belongs to a directory. -/
  | isDirectory
  /-- A directory would be moved into itself. -/
  | invalid
  | nameTooLong
  | notEmpty
  | tooManyLinks
  /-- Any other refusal, with the system's number and text. -/
  | other (number : Nat) (text : String)
  deriving DecidableEq, Repr

namespace SystemFault

def number : SystemFault → Nat
  | noEntry => 2
  | busy => 16
  | alreadyExists => 17
  | notDirectory => 20
  | isDirectory => 21
  | invalid => 22
  | nameTooLong => 36
  | notEmpty => 39
  | tooManyLinks => 40
  | other number _ => number

/-- The faults that have a name here. -/
def named : List SystemFault :=
  [noEntry, busy, alreadyExists, notDirectory, isDirectory, invalid, nameTooLong, notEmpty,
   tooManyLinks]

def text : SystemFault → String
  | noEntry => "No such file or directory"
  | busy => "Device or resource busy"
  | alreadyExists => "File exists"
  | notDirectory => "Not a directory"
  | isDirectory => "Is a directory"
  | invalid => "Invalid argument"
  | nameTooLong => "File name too long"
  | notEmpty => "Directory not empty"
  | tooManyLinks => "Too many levels of symbolic links"
  | other _ text => text

def kind : SystemFault → FaultKind
  | noEntry => .notFound
  | busy => .resourceBusy
  | alreadyExists => .alreadyExists
  | notDirectory => .notADirectory
  | isDirectory => .isADirectory
  | invalid => .invalidInput
  | nameTooLong => .invalidFilename
  | notEmpty => .directoryNotEmpty
  | tooManyLinks => .filesystemLoop
  | other number _ => .numbered number

/-- The fault of a number; `description` is the system's text where the fault has no name here. -/
def ofNumber (n : Nat) (description : String) : SystemFault :=
  (named.find? fun fault => fault.number = n).getD (.other n description)

end SystemFault

/-- Why a file operation fails. -/
inductive Fault where
  | system (fault : SystemFault)
  /-- A path holds the character NUL, which no file name can. -/
  | nulInPath
  | notText
  /-- What should be copied is not a file. -/
  | notFile
  /-- A file should be copied onto itself. -/
  | sameFile
  /-- A command lacks the operand of this number, counted from one. -/
  | missingOperand (kind : CommandKind) (number : Nat)
  /-- The operation on this path fails. -/
  | atPath (path : String) (cause : Fault)
  deriving DecidableEq, Repr

namespace Fault

def message : Fault → String
  | system fault => fault.text ++ " (os error " ++ toString fault.number ++ ")"
  | nulInPath => "file name contained an unexpected NUL byte"
  | notText => "stream did not contain valid UTF-8"
  | notFile => "the source path is neither a regular file nor a symlink to a regular file"
  | sameFile => "source and destination are the same file"
  | missingOperand kind number => kind.name ++ " is missing operand " ++ toString number
  | atPath path cause => path ++ ": " ++ cause.message

/-- The kind of a fault; the path it was found at does not matter. -/
def kind : Fault → FaultKind
  | system fault => fault.kind
  | nulInPath => .invalidInput
  | notText => .invalidData
  | notFile => .invalidInput
  | sameFile => .invalidInput
  | missingOperand .. => .invalidInput
  | atPath _ cause => cause.kind

/-- The fault without the path it was found at. -/
def cause : Fault → Fault
  | atPath _ fault => fault.cause
  | fault => fault

end Fault

end FileShell
