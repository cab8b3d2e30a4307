import FileShell.Arguments
import FileShell.Color
import FileShell.Command.Basic
import FileShell.Command.Rejection
import FileShell.Command.Validation
import FileShell.Configuration
import FileShell.Diagnostic
import FileShell.Disk.Basic
import FileShell.Disk.Fault
import FileShell.Disk.Making
import FileShell.Disk.Path
import FileShell.Disk.Tree
import FileShell.Disk.Walk
import FileShell.Editor.Completion
import FileShell.Editor.Cursor
import FileShell.Editor.Expectation
import FileShell.Editor.FileNames
import FileShell.Editor.Highlight
import FileShell.Editor.Hint
import FileShell.Event
import FileShell.FileAction
import FileShell.History
import FileShell.Input
import FileShell.Line
import FileShell.Main
import FileShell.Program
import FileShell.Prompt
import FileShell.Session
import FileShell.Settings
import FileShell.Shape
import FileShell.Suggestion.Distance
import FileShell.Suggestion.Nearest
import FileShell.Text.Alphanumeric
import FileShell.Text.Blank
import FileShell.Text.Cluster.Basic
import FileShell.Text.Cluster.Class
import FileShell.Text.Encoding
import FileShell.Text.Lines
import FileShell.Text.Mark
import FileShell.Text.Offset
import FileShell.Text.Quoted
import FileShell.Text.Ranges
import FileShell.Text.Replace
import FileShell.Token.Basic
import FileShell.Token.Scan
import FileShell.Proofs.Token.Tokenization
import FileShell.Proofs.Command.Acceptance
import FileShell.Proofs.Command.FirstMismatch
import FileShell.Proofs.Disk.Contents
import FileShell.Proofs.Disk.Atomicity
import FileShell.Proofs.Command.RoundTrip
import FileShell.Proofs.Diagnostic.Pointer
import FileShell.Proofs.Command.Execution
import FileShell.Proofs.Session.Reading
import FileShell.Proofs.Session.Runs
import FileShell.Proofs.Disk.Entries
import FileShell.Proofs.Disk.Joining
import FileShell.Proofs.Disk.Operations
import FileShell.Proofs.Command.Confinement
import FileShell.Proofs.Editor.Expectation
import FileShell.Proofs.Disk.Writing
import FileShell.Proofs.Disk.Copying
import FileShell.Proofs.Session.FrontEnds
import FileShell.Proofs.Disk.Effects
import FileShell.Proofs.Disk.Renaming
import FileShell.Proofs.Disk.WellFormed
import FileShell.Proofs.Disk.Making
import FileShell.Proofs.Command.Renaming
import FileShell.Proofs.Disk.Locality
import FileShell.Proofs.Command.Commuting
import FileShell.Proofs.Command.Undoing
import FileShell.Proofs.Command.Strictness
import FileShell.Proofs.Command.LineEnd
import FileShell.Proofs.Suggestion.Distance
import FileShell.Proofs.Suggestion.Table
import FileShell.Proofs.Suggestion.Nearest
import FileShell.Proofs.Token.Separators
import FileShell.Proofs.Token.Typing
import FileShell.Proofs.Editor.Cursor
import FileShell.Proofs.Editor.Completion
import FileShell.Proofs.Editor.Hint
import FileShell.Proofs.Editor.Recall
import FileShell.Proofs.Editor.Missing
import FileShell.Proofs.Editor.Highlight
import FileShell.Proofs.Text.Trim
import FileShell.Proofs.Text.Lines
import FileShell.Proofs.Settings.Values
import FileShell.Proofs.Settings.Directive
import FileShell.Proofs.Settings.Reading
import FileShell.Proofs.Settings.Reporting
import FileShell.Proofs.Settings.Fields
import FileShell.Proofs.Settings.Quoting
import FileShell.Proofs.Text.Replace
import FileShell.Proofs.Prompt.Template
import FileShell.Proofs.Text.Encoding
import FileShell.Proofs.Session.Lines
import FileShell.Proofs.Diagnostic.Hint
import FileShell.Proofs.Arguments.Reading
import FileShell.Proofs.Arguments.Strictness
