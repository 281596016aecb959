import TextPipeline.Decimal.Binary
import TextPipeline.Decimal.Reading
import TextPipeline.Decimal.Shortest
import TextPipeline.File.Basic
import TextPipeline.File.Diagnostic
import TextPipeline.FrontMatter.Block
import TextPipeline.FrontMatter.Reading
import TextPipeline.Grammar.Endpoint
import TextPipeline.Grammar.Locator
import TextPipeline.Grammar.Plain
import TextPipeline.Json.Printer
import TextPipeline.Json.Reader
import TextPipeline.Logging.Level
import TextPipeline.Logging.Record
import TextPipeline.Logging.Setup
import TextPipeline.Pipeline.Action
import TextPipeline.Pipeline.Chain
import TextPipeline.Pipeline.Event
import TextPipeline.Pipeline.Loop
import TextPipeline.Pipeline.Perform
import TextPipeline.Pipeline.Process
import TextPipeline.Pipeline.Program
import TextPipeline.Pipeline.Session
import TextPipeline.Pipeline.Stage
import TextPipeline.Pipeline.Store
import TextPipeline.Pipeline.Use
import TextPipeline.Pipeline.World
import TextPipeline.Plugin.Attach
import TextPipeline.Plugin.Batch
import TextPipeline.Plugin.Catalog
import TextPipeline.Plugin.Metadata
import TextPipeline.Plugin.Parameter
import TextPipeline.Plugin.Registry
import TextPipeline.Progress.Event
import TextPipeline.Proofs.Course
import TextPipeline.Proofs.Local
import TextPipeline.Proofs.Sound
import TextPipeline.Proofs.Delay
import TextPipeline.Report.Table
import TextPipeline.Report.Tally
import TextPipeline.Script.Catalog
import TextPipeline.Script.Completion
import TextPipeline.Script.Fault
import TextPipeline.Script.File
import TextPipeline.Script.Plugin
import TextPipeline.Script.Reading
import TextPipeline.Script.Session
import TextPipeline.Script.Tree
import TextPipeline.Script.World
import TextPipeline.Script.Writing
import TextPipeline.Settings.Basic
import TextPipeline.Standard.CountWords
import TextPipeline.Standard.FrontMatter
import TextPipeline.Standard.Plugins
import TextPipeline.Standard.RemoveNodes
import TextPipeline.Standard.ReplaceText
import TextPipeline.Text.Base64
import TextPipeline.Text.Blank
import TextPipeline.Text.Case
import TextPipeline.Text.Digit
import TextPipeline.Text.Hex
import TextPipeline.Text.Line
import TextPipeline.Text.Lower
import TextPipeline.Text.Path
import TextPipeline.Text.Printable
import TextPipeline.Text.Quoted
import TextPipeline.Text.Replace
import TextPipeline.Text.Utf8
import TextPipeline.Text.Width
import TextPipeline.Text.Wrap
import TextPipeline.Toml.Document
import TextPipeline.Toml.Scalar
import TextPipeline.Toml.Text
import TextPipeline.Transform.Completion
import TextPipeline.Transform.Resolution
import TextPipeline.Tree.Basic
import TextPipeline.Tree.Build
import TextPipeline.Tree.Json
import TextPipeline.Tree.Literal
import TextPipeline.Tree.Rebuild
import TextPipeline.Tree.Record
import TextPipeline.Tree.Visit
import TextPipeline.Tree.Walk
import TextPipeline.Value.Basic
import TextPipeline.Value.Calendar
import TextPipeline.Value.Copy
import TextPipeline.Value.Data
import TextPipeline.Value.Display
import TextPipeline.Value.Edit
import TextPipeline.Value.Equality
import TextPipeline.Value.Fault
import TextPipeline.Value.Member
import TextPipeline.Value.Moment
import TextPipeline.Value.Number
import TextPipeline.Value.Reveal
import TextPipeline.Value.Sequence
import TextPipeline.Yaml.Cursor
import TextPipeline.Yaml.Node
import TextPipeline.Yaml.Number
import TextPipeline.Yaml.Resolve
import TextPipeline.Yaml.Scalar
import TextPipeline.Yaml.Timestamp
import TextPipeline.Yaml.Token
import TextPipeline.Yaml.Tokens
import TextPipeline.Yaml.Value
import TextPipeline.Proofs.Receiving
import TextPipeline.Proofs.Answer
import TextPipeline.Proofs.Paragraphs
import TextPipeline.Proofs.Walking
import TextPipeline.Proofs.Recomposition
import TextPipeline.Proofs.Rereading
import TextPipeline.Proofs.Describing
import TextPipeline.Proofs.Recording
import TextPipeline.Proofs.Refusing
import TextPipeline.Proofs.Placing
import TextPipeline.Proofs.Pruning
import TextPipeline.Proofs.Stretch
import TextPipeline.Proofs.Listening
import TextPipeline.Proofs.Callback
import TextPipeline.Proofs.Keeping
import TextPipeline.Proofs.Attaching
import TextPipeline.Proofs.Batching
import TextPipeline.Proofs.Restoring
import TextPipeline.Proofs.Cataloguing
import TextPipeline.Proofs.Registering
import TextPipeline.Proofs.Observing
import TextPipeline.Proofs.Apart
import TextPipeline.Proofs.Tracking
import TextPipeline.Proofs.Pacing
import TextPipeline.Proofs.Protocol
import TextPipeline.Proofs.Announcing
import TextPipeline.Proofs.Unobserved
import TextPipeline.Proofs.Provenance
import TextPipeline.Proofs.Interleaving
import TextPipeline.Proofs.Spots
import TextPipeline.Proofs.Visiting
import TextPipeline.Proofs.Filtering
import TextPipeline.Proofs.Removing
import TextPipeline.Proofs.Omitting
import TextPipeline.Proofs.Fencing
import TextPipeline.Proofs.Counting
import TextPipeline.Proofs.Replacing
import TextPipeline.Proofs.Marking
import TextPipeline.Proofs.Resolving
import TextPipeline.Proofs.Naming
import TextPipeline.Proofs.Filling
import TextPipeline.Proofs.Admitting
import TextPipeline.Proofs.Tolerating
import TextPipeline.Proofs.Locating
import TextPipeline.Proofs.Inspecting
import TextPipeline.Proofs.Traversing
import TextPipeline.Proofs.Completing
