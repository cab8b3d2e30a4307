import FileShell.Program

/-!
# The command line

The program on the files of the machine it runs on. What a line means, what is printed and when
the session ends is decided by the library; here lines are read, actions are performed and texts
are printed.
-/

namespace FileShell.CommandLine

/-- The system's number of an error. Some calls report it with a minus sign, which makes it a large
number without one. -/
def errorNumber (code : UInt32) : Nat :=
  if code.toNat < 0x80000000 then code.toNat else 0x100000000 - code.toNat

/-- The fault behind an error of the system. -/
def faultOf : IO.Error → Fault
  | .alreadyExists _ code text | .invalidArgument _ code text | .permissionDenied _ code text
  | .resourceExhausted _ code text | .inappropriateType _ code text | .noSuchThing _ code text
  | .noFileOrDirectory _ code text | .interrupted _ code text | .otherError code text
  | .resourceBusy code text | .resourceVanished code text | .unsupportedOperation code text
  | .hardwareFault code text | .unsatisfiedConstraints code text | .illegalOperation code text
  | .protocolError code text | .timeExpired code text =>
    .system (SystemFault.ofNumber (errorNumber code) text)
  | .unexpectedEof => .system (.other 0 "unexpected end of file")
  | .userError text => .system (.other 0 text)

def attempt {α : Type} (action : IO α) : IO (Except Fault α) := do
  match ← action.toBaseIO with
  | .ok value => pure (.ok value)
  | .error error => pure (.error (faultOf error))

/-- Runs an action and keeps its failure as a fault at a path. -/
def attemptAt {α : Type} (path : String) (action : IO α) : IO (Except Fault α) := do
  pure ((← attempt action).mapError (Fault.atPath path))

/-- Whether a path is that of a directory, and not of a link to one. -/
def isDirectory (path : String) : IO Bool := do
  let entry := (← IO.FS.realPath ".") / path
  match (← entry.symlinkMetadata).type with
  | .dir => pure true
  | _ => pure false

/-- Where a path leads, with links followed. It is opened first, since that fails with the fault
that fits. -/
def destination (path : String) : IO String := do
  let _ ← IO.FS.Handle.mk path .read
  return (← IO.FS.realPath path).toString

/-- Whether two places hold names of one file, given that they differ. The two look alike then, and
while one of them is locked the other cannot be. If another program holds the lock, their looks
decide. -/
def linked (a b : String) : IO Bool := do
  let one ← (← IO.FS.realPath a).metadata
  let other ← (← IO.FS.realPath b).metadata
  match one.type, other.type with
  | .file, .file =>
    if one.numLinks < 2 || one.numLinks != other.numLinks || one.byteSize != other.byteSize
        || one.modified != other.modified then
      return false
    let first ← IO.FS.Handle.mk a .read
    let second ← IO.FS.Handle.mk b .read
    if ← first.tryLock then
      let free ← second.tryLock
      first.unlock
      return !free
    else return true
  | _, _ => return false

/-- Whether two paths lead to one file. A target that does not exist is no obstacle. -/
def sameFile (source target : String) : IO (Except Fault Bool) := do
  match ← attemptAt source (destination source), ← attemptAt target (destination target) with
  | .error fault, _ => pure (.error fault)
  | .ok _, .error fault => pure (if fault.kind = .notFound then .ok false else .error fault)
  | .ok a, .ok b => if a == b then pure (.ok true) else attemptAt source (linked a b)

/-- Copies a file. The source is read as a whole before the target is opened. -/
def copy (source target : String) : IO (Except Fault Unit) := do
  match ← sameFile source target with
  | .error fault => pure (.error fault)
  | .ok true => pure (.error (.atPath source .sameFile))
  | .ok false =>
    if ← (← IO.FS.realPath source).isDir then pure (.error (.atPath source .notFile))
    else attemptAt source do IO.FS.writeBinFile target (← IO.FS.readBinFile source)

def delete (path : String) : IO (Except Fault Unit) := do
  match ← attemptAt path (isDirectory path) with
  | .error fault => pure (.error fault)
  | .ok true => pure (.error (.atPath path (.system .isDirectory)))
  | .ok false => attemptAt path (IO.FS.removeFile path)

def perform : FileAction → IO (Except Fault Unit)
  | .create path => attemptAt path do let _ ← IO.FS.Handle.mk path .writeNew
  | .delete path => delete path
  | .copy source target => copy source target
  | .rename source target => attemptAt source (IO.FS.rename source target)

def print (o : Output) : IO Unit := do
  IO.print o.out
  IO.eprint o.err
  (← IO.getStdout).flush

/-- Reads the input up to the next line feed or its end; `taken` has been read, newest first. -/
partial def readSegment (input : IO.FS.Stream) (taken : Bytes) : IO Bytes := do
  match (← input.read 1).toList with
  | byte :: _ =>
    if byte = Input.lineFeed then pure (byte :: taken).reverse
    else readSegment input (byte :: taken)
  | [] => pure taken.reverse

/-- Runs a session on an input: the code it ends with, and the history. -/
partial def serve (s : Session) (input : IO.FS.Stream) (h : History) (status : Nat) :
    IO (Nat × History) := do
  print (s.prompt status)
  let segment ← readSegment input []
  if segment.isEmpty then
    print s.closing
    return (status, h)
  match s.read segment with
  | .blank => serve s input h status
  | .unreadable fault =>
    print (Session.complaint fault)
    serve s input h status
  | .line line =>
    let h := if s.interactive then h.add line else h
    let (output, verdict) :=
      s.tell line (← Line.executeWith perform s.settings.strict s.root line)
    print output
    match verdict with
    | .goOn status => serve s input h status
    | .leave code => return (code, h)

def bytesOf (path : String) : IO (Except Fault Bytes) := do
  pure ((← attempt (IO.FS.readBinFile path)).map ByteArray.toList)

def textOf (path : String) : IO (Except Fault String) := do
  match ← bytesOf path with
  | .error fault => pure (.error fault)
  | .ok bytes =>
    match Text.decode? bytes with
    | none => pure (.error .notText)
    | some text => pure (.ok text)

def runIn (root : String) (options : Options) : IO UInt32 := do
  let environment : Environment :=
    { rc := ← IO.getEnv "FILECMD_RC", home := ← IO.getEnv "HOME" }
  let input ← IO.getStdin
  let interactive ← input.isTty
  let loaded ←
    match environment.configurationPath with
    | none => pure (.ok ({}, []))
    | some path => do pure (Settings.ofReading {} (← textOf (Path.join root path)))
  let (session, output) := Program.openSession interactive true options root loaded
  print output
  let path := Path.join root environment.historyPath
  let history ←
    if interactive then
      match ← bytesOf path with
      | .ok bytes => pure (History.read {} bytes).1
      | .error _ => pure {}
    else pure {}
  let (code, history) ← serve session input history 0
  unless history.unsaved = 0 do
    let _ ← attempt (IO.FS.writeBinFile path ⟨history.toBytes.toArray⟩)
  return code.toUInt32

def run (arguments : List String) : IO UInt32 := do
  match Arguments.read arguments with
  | .ok .help =>
    print Program.help
    return 0
  | .error error =>
    print (Program.wrongUsage error)
    return 2
  | .ok (.run options) =>
    match ← attempt (destination (options.root.getD ".")) with
    | .ok root =>
      if ← (← IO.FS.realPath root).isDir then runIn root options
      else
        print (Program.noDirectory (options.root.getD ".") (.system .notDirectory))
        return 1
    | .error fault =>
      print (Program.noDirectory (options.root.getD ".") fault)
      return 1

end FileShell.CommandLine

def main (arguments : List String) : IO UInt32 :=
  FileShell.CommandLine.run arguments
