import KspWorkbench.Command.Arguments
import KspWorkbench.Command.Check
import KspWorkbench.Command.Compilation
import KspWorkbench.Command.Completion
import KspWorkbench.Command.Program
import KspWorkbench.Command.Serve
import KspWorkbench.Compiler.LineFraming
import KspWorkbench.Compiler.Notice
import KspWorkbench.Compiler.Options
import KspWorkbench.Compiler.Outcome
import KspWorkbench.Compiler.Report
import KspWorkbench.Compiler.Request
import KspWorkbench.Compiler.StderrBlock
import KspWorkbench.Compiler.StdoutLine
import KspWorkbench.Config.File
import KspWorkbench.Data.Datum
import KspWorkbench.Data.Encoding
import KspWorkbench.Data.JsonReader
import KspWorkbench.Data.JsonWriter
import KspWorkbench.Data.Toml.Quoted
import KspWorkbench.Data.Toml.Reader
import KspWorkbench.Data.Toml.Scalar
import KspWorkbench.Data.Toml.Table
import KspWorkbench.Diagnostic
import KspWorkbench.Document
import KspWorkbench.Machine.FileTree
import KspWorkbench.Machine.Interface
import KspWorkbench.Machine.Scripted
import KspWorkbench.Main
import KspWorkbench.Proofs.Validation.Course
import KspWorkbench.Proofs.Validation.Delivery
import KspWorkbench.Proofs.Validation.Identity
import KspWorkbench.Proofs.Validation.Moves
import KspWorkbench.Proofs.Validation.SingleFlight
import KspWorkbench.Script.Declaration
import KspWorkbench.Script.Navigation
import KspWorkbench.Script.Occurrence
import KspWorkbench.Script.Symbol
import KspWorkbench.Script.Token
import KspWorkbench.Server.Conversation
import KspWorkbench.Server.Event
import KspWorkbench.Server.Rehearsal
import KspWorkbench.Server.Request
import KspWorkbench.Text.Scanning
import KspWorkbench.Text.Lines
import KspWorkbench.Text.PathName
import KspWorkbench.Text.Pieces
import KspWorkbench.Text.Utf8
import KspWorkbench.Validation.Gate
import KspWorkbench.Validation.Pattern
import KspWorkbench.Validation.ResultQueue
import KspWorkbench.Validation.Service
import KspWorkbench.Validation.Session
import KspWorkbench.Validation.Settings
import KspWorkbench.Validation.Snapshot
import KspWorkbench.Validation.Supervisor
import KspWorkbench.Proofs.Validation.Publication
import KspWorkbench.Proofs.Validation.Breaker
import KspWorkbench.Proofs.Sequences
import KspWorkbench.Proofs.Validation.Debounce
import KspWorkbench.Proofs.Validation.DebounceTiming
import KspWorkbench.Proofs.Validation.Coalescing
import KspWorkbench.Proofs.Compiler.RunReport
import KspWorkbench.Proofs.Compiler.Runner
import KspWorkbench.Proofs.Compiler.Framing
import KspWorkbench.Proofs.Text.LinePattern
import KspWorkbench.Proofs.Compiler.StderrPatterns
import KspWorkbench.Proofs.Compiler.StderrGrammar
import KspWorkbench.Proofs.Compiler.StdoutGrammar
import KspWorkbench.Proofs.Compiler.StdoutRoundTrip
import KspWorkbench.Proofs.Compiler.Observation
import KspWorkbench.Proofs.Script.Occurrences
import KspWorkbench.Proofs.Script.Editing
import KspWorkbench.Proofs.Script.Tokens
import KspWorkbench.Proofs.Script.Declarations
import KspWorkbench.Proofs.Script.Undo
import KspWorkbench.Proofs.Script.Renaming
import KspWorkbench.Proofs.Command.Schedule
import KspWorkbench.Proofs.Command.CheckOutcome
import KspWorkbench.Proofs.Command.CheckCourse
import KspWorkbench.Proofs.Validation.DocumentState
import KspWorkbench.Proofs.Validation.Projection
import KspWorkbench.Proofs.Validation.Independence
import KspWorkbench.Proofs.Validation.Notices
import KspWorkbench.Proofs.Server.Turns
import KspWorkbench.Proofs.Server.Conversation
import KspWorkbench.Proofs.Server.Rehearsals
import KspWorkbench.Proofs.Script.References
import KspWorkbench.Proofs.Script.DeclaredNames
import KspWorkbench.Proofs.Script.Matches
import KspWorkbench.Proofs.Script.RenamedReferences
import KspWorkbench.Proofs.Script.HiddenOccurrences
import KspWorkbench.Proofs.Script.StringLiterals
import KspWorkbench.Proofs.Validation.Draining
import KspWorkbench.Proofs.Validation.LiveEdits
import KspWorkbench.Proofs.Validation.Reconfiguration
import KspWorkbench.Proofs.Script.DeclarationGrammar
import KspWorkbench.Proofs.Script.WidgetLinks
import KspWorkbench.Proofs.Script.Definitions
import KspWorkbench.Proofs.Text.Utf8
import KspWorkbench.Proofs.Command.CompileOutcome
import KspWorkbench.Proofs.Validation.Snapshots
import KspWorkbench.Proofs.Compiler.RequestArguments
import KspWorkbench.Proofs.Validation.Instances
import KspWorkbench.Proofs.Validation.DelayPolicy
import KspWorkbench.Proofs.Compiler.LineNumbers
import KspWorkbench.Proofs.Script.TokenExtent
