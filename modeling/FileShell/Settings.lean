import FileShell.Diagnostic
import FileShell.Prompt
import FileShell.Text.Lines

/-!
# Settings

What the user can configure, and the text that configures it. Every line of that text that is not
blank and not a comment is a directive `key = value`. A wrong line is reported and otherwise has
no effect.
-/

namespace FileShell

structure Settings where
  /-- The template of the prompt, which takes precedence over the theme. -/
  promptTemplate : Option String := none
  promptTheme : Prompt.Theme := .classic
  palette : Palette := {}
  /-- Whether words after `exit` are refused. -/
  strict : Bool := false
  deriving DecidableEq, Repr

/-- One change to the settings. -/
inductive Directive where
  | prompt (template : String)
  | theme (theme : Prompt.Theme)
  | strict (on : Bool)
  | color (part : Palette.Part) (value : String)
  deriving DecidableEq, Repr

inductive DirectiveError where
  | unrecognized
  | unknownKey (key : String)
  | unknownColorKey (key : String)
  | unknownTheme (name : String)
  | notBoolean (value : String)
  deriving DecidableEq, Repr

def DirectiveError.message : DirectiveError → String
  | unrecognized => "unrecognized directive"
  | unknownKey key => "unknown key '" ++ key ++ "'"
  | unknownColorKey key => "unknown color key '" ++ key ++ "'"
  | unknownTheme name => "unknown theme '" ++ name ++ "'"
  | notBoolean value => "invalid boolean '" ++ value ++ "' for strict"

namespace Directive

/-- The characters before and after the first equals sign. -/
def splitEquals : List Char → Option (List Char × List Char)
  | [] => none
  | c :: cs =>
    if c = '=' then some ([], cs)
    else (splitEquals cs).map fun (key, value) => (c :: key, value)

/-- The characters without a pair of equal quotes around them. -/
def unquote (cs : List Char) : List Char :=
  match cs with
  | quote :: rest =>
    if (quote = '"' ∨ quote = '\x27') ∧ rest.getLast? = some quote then rest.dropLast else cs
  | [] => []

/-- The boolean that a value spells; case does not count for ASCII letters. -/
def boolean? (value : String) : Option Bool :=
  let value := value.toLower
  if value ∈ ["1", "yes", "true", "on"] then some true
  else if value ∈ ["0", "no", "false", "off"] then some false
  else none

def colorMark : List Char := ['c', 'o', 'l', 'o', 'r', '.']

def ofColor (key value : String) : Except DirectiveError Directive :=
  match Palette.Part.ofKey? key with
  | some part => .ok (.color part value)
  | none => .error (.unknownColorKey key)

def ofPair (key value : String) : Except DirectiveError Directive :=
  if colorMark.isPrefixOf key.toList then
    ofColor (String.ofList (key.toList.drop colorMark.length)) value
  else if key = "prompt" ∨ key = "PROMPT" then .ok (.prompt value)
  else if key = "theme" then
    match Prompt.Theme.ofName? value with
    | some chosen => .ok (.theme chosen)
    | none => .error (.unknownTheme value)
  else if key = "strict" then
    match boolean? value with
    | some on => .ok (.strict on)
    | none => .error (.notBoolean value)
  else .error (.unknownKey key)

/-- The directive on a line that is neither blank nor a comment. -/
def ofLine (line : List Char) : Except DirectiveError Directive :=
  match splitEquals line with
  | none => .error .unrecognized
  | some (key, value) =>
    ofPair (String.ofList (Text.trimChars key))
      (String.ofList (unquote (Text.trimChars value)))

/-- What a line of a configuration text holds: nothing, or a directive, or an error. -/
def read? (line : String) : Option (Except DirectiveError Directive) :=
  match Text.trimChars line.toList with
  | [] => none
  | '#' :: _ => none
  | cs => some (ofLine cs)

/-- The diagnostic for an error on a line, counted from one. -/
def diagnostic (lineNumber : Nat) (error : DirectiveError) : Diagnostic :=
  { trouble := .configuration
    message := error.message
    hint := some ("line " ++ toString lineNumber) }

end Directive

namespace Settings

def apply (s : Settings) : Directive → Settings
  | .prompt template => { s with promptTemplate := some template }
  | .theme theme => { s with promptTheme := theme }
  | .strict on => { s with strict := on }
  | .color part value => { s with palette := s.palette.set part value }

/-- The settings after the lines of a configuration text, of which the first is line `n`, and the
errors in them. -/
def readLines (s : Settings) (n : Nat) : List String → Settings × List Diagnostic
  | [] => (s, [])
  | line :: rest =>
    match Directive.read? line with
    | none => s.readLines (n + 1) rest
    | some (.ok directive) => (s.apply directive).readLines (n + 1) rest
    | some (.error error) =>
      let (settings, errors) := s.readLines (n + 1) rest
      (settings, Directive.diagnostic n error :: errors)

def read (s : Settings) (content : String) : Settings × List Diagnostic :=
  s.readLines 1 (Text.lines content)

/-- The prompt that the settings ask for; none is shown when no one is there to read it. -/
def prompt (s : Settings) (interactive : Bool) (status : Int) (cwd : String) : String :=
  if interactive then
    match s.promptTemplate with
    | some template => Prompt.ofTemplate template status cwd
    | none => Prompt.ofTheme s.promptTheme s.palette status cwd
  else ""

end Settings

end FileShell
