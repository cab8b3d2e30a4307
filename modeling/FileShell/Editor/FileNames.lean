import FileShell.Disk.Making
import FileShell.Editor.Cursor

/-!
# Completing file names

Names in a directory are offered for the path at the cursor. The path begins after the last
separator that is not escaped, or after an open quote. In a name that is put in, characters that
would end the path are escaped as the place requires.
-/

namespace FileShell.Editor

/-- A completion: what is shown, and what replaces the word at the cursor. -/
structure Candidate where
  shown : String
  replacement : String
  deriving DecidableEq, Repr

namespace FileNames

inductive Quoting where
  | bare
  | double
  | single
  deriving DecidableEq, Repr

/-- The character that takes the special meaning from the next one. -/
def escape : Char := '\\'

def singleQuote : Char := '\x27'

/-- The characters that separate paths. -/
def separators : List Char :=
  [' ', '\t', '\n', '"', '\\', '\x27', '\x60', '@', '$', '>', '<', '=', ';', '|', '&', '\x7b', '(',
    '\x00']

/-- The characters that keep a special meaning in double quotes. -/
def doubleQuoteSpecials : List Char :=
  ['"', '$', '\\', '\x60']

def Quoting.specials : Quoting → List Char
  | bare => separators
  | double => doubleQuoteSpecials
  | single => []

/-- Looks for an open quote: `current` is what has been opened, with the text since then. -/
def openQuoteFrom (current : Quoting × List Char) : List Char → Quoting × List Char
  | [] => current
  | c :: cs =>
    match current with
    | (.bare, _) =>
      if c = '"' then openQuoteFrom (.double, []) cs
      else if c = singleQuote then openQuoteFrom (.single, []) cs
      else if c = escape then
        match cs with
        | [] => (.bare, [])
        | _ :: rest => openQuoteFrom (.bare, []) rest
      else openQuoteFrom (.bare, []) cs
    | (.single, text) =>
      if c = singleQuote then openQuoteFrom (.bare, []) cs
      else openQuoteFrom (.single, text ++ [c]) cs
    | (.double, text) =>
      if c = '"' then openQuoteFrom (.bare, []) cs
      else if c = escape then
        match cs with
        | [] => (.double, text ++ [c])
        | next :: rest => openQuoteFrom (.double, text ++ [c, next]) rest
      else openQuoteFrom (.double, text ++ [c]) cs

/-- Takes the path off the end of a text, given in reverse: everything after the last separator
that has no escape before it. -/
def takePath : List Char → List Char
  | [] => []
  | c :: before =>
    if c ∈ separators then
      match before with
      | next :: rest => if next = escape then c :: escape :: takePath rest else []
      | [] => []
    else c :: takePath before

/-- The text without its escapes. An escape at the end is dropped. -/
def unescape : List Char → List Char
  | [] => []
  | [c] => if c = escape then [] else [c]
  | c :: next :: cs => if c = escape then next :: unescape cs else c :: unescape (next :: cs)

def escapeAll (specials : List Char) (name : List Char) : List Char :=
  name.flatMap fun c => if c ∈ specials then [escape, c] else [c]

/-- The path at the end of a text as it is written there, and how it is quoted. -/
def writtenPath (before : List Char) : Quoting × List Char :=
  match openQuoteFrom (.bare, []) before with
  | (.bare, _) => (.bare, (takePath before.reverse).reverse)
  | open? => open?

def meaning : Quoting → List Char → List Char
  | .single, path => path
  | _, path => unescape path

def isSlash (c : Char) : Bool := c == Path.separator

/-- The directory part of a path, with its slash, and the beginning of a name after it. -/
def splitPath (path : List Char) : List Char × List Char :=
  ((path.reverse.dropWhile fun c => !isSlash c).reverse,
    (path.reverse.takeWhile fun c => !isSlash c).reverse)

/-- The path by which a directory is looked up. It is written out from the top, since its length
counts; a tilde in front of the first slash stands for the home directory. -/
def lookupPath (d : Disk) (home : Option String) (directory : List Char) : String :=
  match home, directory with
  | some home, '~' :: '/' :: rest => Path.join home (String.ofList (rest.dropWhile isSlash))
  | _, _ => Path.join (Disk.pathText d.cwd) (String.ofList directory)

/-- The names in a directory that begin as given and lead somewhere, with whether they lead to a
directory, in the order of their characters. Each name is followed along the path of the directory,
so that the links and the length of that path count towards its limits. -/
def namesIn (d : Disk) (directory : String) (beginning : List Char) : List (String × Bool) :=
  match d.target directory with
  | .ok (.directory place) =>
    let names := (d.tree.names place).filter fun name => beginning.isPrefixOf name.toList
    (names.mergeSort Disk.textLE).filterMap fun name =>
      match d.target (Path.join directory name) with
      | .ok (.directory _) => some (name, true)
      | .ok (.file ..) => some (name, false)
      | .error _ => none
  | _ => []

/-- The byte offset at which the path at the cursor begins, and the completions for it. -/
def complete (d : Disk) (home : Option String) (c : Cursor) : Nat × List Candidate :=
  let (quoting, written) := writtenPath c.before
  let (directory, beginning) := splitPath (meaning quoting written)
  let candidates := (namesIn d (lookupPath d home directory) beginning).map fun (name, leads) =>
    let path := directory ++ name.toList ++ if leads then [Path.separator] else []
    ⟨name, String.ofList (escapeAll quoting.specials path)⟩
  (Text.byteLength c.before - Text.byteLength written, candidates)

end FileNames

end FileShell.Editor
