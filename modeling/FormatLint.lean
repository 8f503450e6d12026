import FormatLint.Batch.File
import FormatLint.Batch.Process
import FormatLint.Batch.Schedule
import FormatLint.Batch.Target
import FormatLint.Data.ConfigFile
import FormatLint.Data.Datum
import FormatLint.Data.Decode
import FormatLint.Data.JsonFile
import FormatLint.Decimal.Binary64
import FormatLint.Decimal.Shortest
import FormatLint.Engine.ConfigModule
import FormatLint.Engine.FileUrl
import FormatLint.Engine.FormatOptions
import FormatLint.Engine.FormatProgram
import FormatLint.Engine.InProcess
import FormatLint.Engine.Linter
import FormatLint.Error
import FormatLint.FileSystem.Basic
import FormatLint.FileSystem.Change
import FormatLint.FileSystem.Listing
import FormatLint.FileSystem.Resolve
import FormatLint.Glob.Basic
import FormatLint.Glob.Parser
import FormatLint.Json.Basic
import FormatLint.Json.Printer
import FormatLint.Json.Reader
import FormatLint.Lint.Result
import FormatLint.Main
import FormatLint.Manifest
import FormatLint.Path.Basic
import FormatLint.Path.Normal
import FormatLint.Process.Basic
import FormatLint.Proofs.Batch.Anchoring
import FormatLint.Proofs.Batch.Event
import FormatLint.Proofs.Batch.InPlace
import FormatLint.Proofs.Batch.Intact
import FormatLint.Proofs.Batch.Placement
import FormatLint.Proofs.Batch.Redirect
import FormatLint.Proofs.Batch.Turn
import FormatLint.Proofs.Batch.Unchanged
import FormatLint.Proofs.Batch.Underway
import FormatLint.Proofs.Batch.Write
import FormatLint.Proofs.ConfigModule.Address
import FormatLint.Proofs.ConfigModule.Meaning
import FormatLint.Proofs.ConfigModule.Translation
import FormatLint.Proofs.FileSystem.Absolute
import FormatLint.Proofs.FileSystem.Alias
import FormatLint.Proofs.FileSystem.Change
import FormatLint.Proofs.FileSystem.Drift
import FormatLint.Proofs.FileSystem.Growth
import FormatLint.Proofs.FileSystem.Holding
import FormatLint.Proofs.FileSystem.Landing
import FormatLint.Proofs.FileSystem.Listing
import FormatLint.Proofs.FileSystem.Outline
import FormatLint.Proofs.FileSystem.Resolve
import FormatLint.Proofs.FileSystem.Rewrite
import FormatLint.Proofs.FileSystem.Tree
import FormatLint.Proofs.FileSystem.Update
import FormatLint.Proofs.Glob.Extension
import FormatLint.Proofs.Glob.Language
import FormatLint.Proofs.Glob.Literal
import FormatLint.Proofs.Glob.Subtree
import FormatLint.Proofs.Glob.Wild
import FormatLint.Proofs.Json.Distinct
import FormatLint.Proofs.Json.Embedding
import FormatLint.Proofs.Json.Reading
import FormatLint.Proofs.Path.Ancestors
import FormatLint.Proofs.Path.Below
import FormatLint.Proofs.Path.Folding
import FormatLint.Proofs.Path.Join
import FormatLint.Proofs.Path.Normal
import FormatLint.Proofs.Path.Parts
import FormatLint.Proofs.Report.RoundTrip
import FormatLint.Proofs.Report.Status
import FormatLint.Proofs.Report.Stylish
import FormatLint.Proofs.Rules.Conflict
import FormatLint.Proofs.Rules.Decoding
import FormatLint.Proofs.Rules.Layering
import FormatLint.Proofs.Rules.Members
import FormatLint.Proofs.Rules.Omission
import FormatLint.Proofs.Rules.Reference
import FormatLint.Proofs.Rules.RoundTrip
import FormatLint.Proofs.Run.Calm
import FormatLint.Proofs.Run.ReadOnly
import FormatLint.Proofs.Run.Rejection
import FormatLint.Proofs.Script.Evaluation
import FormatLint.Proofs.Script.Lexing
import FormatLint.Proofs.Script.Literal
import FormatLint.Proofs.Script.Parsing
import FormatLint.Proofs.Selection.Escaped
import FormatLint.Proofs.Selection.Ignored
import FormatLint.Proofs.Selection.Layout
import FormatLint.Proofs.Selection.Monotone
import FormatLint.Proofs.Selection.Negation
import FormatLint.Proofs.Selection.PatternLayout
import FormatLint.Proofs.Selection.Pruning
import FormatLint.Proofs.Selection.Search
import FormatLint.Proofs.Selection.Unmatched
import FormatLint.Proofs.Settings.CommandLine
import FormatLint.Proofs.Settings.Discovery
import FormatLint.Proofs.Settings.Independence
import FormatLint.Proofs.Settings.Occurrence
import FormatLint.Proofs.Text.Lines
import FormatLint.Proofs.Text.Utf8
import FormatLint.Proofs.World
import FormatLint.Report.Render
import FormatLint.Report.Table
import FormatLint.Rules.Compose
import FormatLint.Rules.Defaults
import FormatLint.Rules.Entry
import FormatLint.Rules.Layer
import FormatLint.Rules.ModuleRef
import FormatLint.Rules.Project
import FormatLint.Rules.Suppression
import FormatLint.Run
import FormatLint.Selection.IgnoreText
import FormatLint.Selection.PatternText
import FormatLint.Selection.Search
import FormatLint.Selection.Select
import FormatLint.Settings.Args
import FormatLint.Settings.Config
import FormatLint.Settings.Load
import FormatLint.Settings.Resolve
import FormatLint.Shell.Run
import FormatLint.Shell.Script
import FormatLint.Shell.Tool
import FormatLint.Sink
import FormatLint.Text.Blank
import FormatLint.Text.Numeral
import FormatLint.Text.Quoted
import FormatLint.Text.Replace
import FormatLint.Text.Utf8
import FormatLint.Text.Width
import FormatLint.Toml.Read
import FormatLint.Toml.Scalar
import FormatLint.Toml.Table
import FormatLint.World
import FormatLint.Yaml.Cursor
import FormatLint.Yaml.Node
import FormatLint.Yaml.Plain
import FormatLint.Yaml.Scan
import FormatLint.Yaml.Token
