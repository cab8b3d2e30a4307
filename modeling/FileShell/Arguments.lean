/-!
# Command line arguments

What the arguments of the program ask for. They are read from left to right: a request for help or
a wrong argument settles the matter, and of contrary flags the last one counts.
-/

namespace FileShell

/-- How to run the session. -/
structure Options where
  /-- Whether to show the tokens and command of each line. -/
  trace : Bool := false
  /-- Whether words after `exit` are refused, instead of what the configuration says. -/
  strict : Option Bool := none
  root : Option String := none
  deriving DecidableEq, Repr

/-- What the arguments ask for. -/
inductive Request where
  | help
  | run (options : Options)
  deriving DecidableEq, Repr

inductive ArgumentError where
  | missingDirectory
  | unknown (argument : String)
  deriving DecidableEq, Repr

def ArgumentError.message : ArgumentError → String
  | missingDirectory => "--root needs a directory"
  | unknown argument => "unknown argument '" ++ argument ++ "'"

namespace Arguments

/-- What a single argument means. -/
inductive Argument where
  | help
  | trace
  | strict (on : Bool)
  | root (directory : String)
  | wrong (error : ArgumentError)
  deriving DecidableEq, Repr

def rootMark : String := "--root="

def classify (argument : String) : Argument :=
  if argument = "-h" ∨ argument = "--help" then .help
  else if argument = "-x" then .trace
  else if argument = "--strict" then .strict true
  else if argument = "--no-strict" then .strict false
  else if rootMark.toList.isPrefixOf argument.toList then
    match argument.toList.drop rootMark.toList.length with
    | [] => .wrong .missingDirectory
    | directory => .root (String.ofList directory)
  else .wrong (.unknown argument)

/-- What the arguments ask for, given the options so far. -/
def readFrom (options : Options) : List String → Except ArgumentError Request
  | [] => .ok (.run options)
  | argument :: rest =>
    match classify argument with
    | .help => .ok .help
    | .trace => readFrom { options with trace := true } rest
    | .strict on => readFrom { options with strict := some on } rest
    | .root directory => readFrom { options with root := some directory } rest
    | .wrong error => .error error

def read (arguments : List String) : Except ArgumentError Request :=
  readFrom {} arguments

def usage : String :=
  "usage: filecmd [-x] [--strict | --no-strict] [--root=DIR]\n\n" ++
  "commands:\n" ++
  "  create file <name>\n" ++
  "  delete file <name>\n" ++
  "  copy file <name> to <name>\n" ++
  "  rename file <name> to <name>\n" ++
  "  exit"

end Arguments

end FileShell
