import Lindenmayer.Code
import Lindenmayer.Command.Flag
import Lindenmayer.Command.Help
import Lindenmayer.Command.Invocation
import Lindenmayer.Command.Options
import Lindenmayer.Command.Outcome
import Lindenmayer.Curve.Builder
import Lindenmayer.Curve.Skeleton
import Lindenmayer.Decimal.Binary
import Lindenmayer.Decimal.Format
import Lindenmayer.Decimal.Shortest
import Lindenmayer.Definition
import Lindenmayer.Definition.Document
import Lindenmayer.Expander
import Lindenmayer.Generation
import Lindenmayer.Journal.Event
import Lindenmayer.Journal.MemoryLog
import Lindenmayer.Journal.Run
import Lindenmayer.Journal.Service
import Lindenmayer.Journal.Stages
import Lindenmayer.Json
import Lindenmayer.Limits
import Lindenmayer.Main
import Lindenmayer.Position
import Lindenmayer.Preferences
import Lindenmayer.Proofs.Curve.Calls
import Lindenmayer.Proofs.Curve.Connected
import Lindenmayer.Proofs.Curve.Handles
import Lindenmayer.Proofs.Curve.Skeleton
import Lindenmayer.Proofs.Decimal.Nearest
import Lindenmayer.Proofs.Decimal.Shortest
import Lindenmayer.Proofs.Decimal.Text
import Lindenmayer.Proofs.Definition.Saving
import Lindenmayer.Proofs.Definition.Validity
import Lindenmayer.Proofs.Double.Bits
import Lindenmayer.Proofs.Double.Bounds
import Lindenmayer.Proofs.Double.Sums
import Lindenmayer.Proofs.Expander.Account
import Lindenmayer.Proofs.Expander.Brackets
import Lindenmayer.Proofs.Expander.Deterministic
import Lindenmayer.Proofs.Expander.Fallback
import Lindenmayer.Proofs.Expander.Limits
import Lindenmayer.Proofs.Expander.Morphism
import Lindenmayer.Proofs.Expander.Policies
import Lindenmayer.Proofs.Expander.Resuming
import Lindenmayer.Proofs.Expander.Rewriting
import Lindenmayer.Proofs.Expander.Selection
import Lindenmayer.Proofs.Expander.Tracking
import Lindenmayer.Proofs.Generation.Brackets
import Lindenmayer.Proofs.Generation.Codes
import Lindenmayer.Proofs.Generation.Refused
import Lindenmayer.Proofs.Generation.Rereading
import Lindenmayer.Proofs.Generation.Shape
import Lindenmayer.Proofs.Generation.Stages
import Lindenmayer.Proofs.Journal.MemoryLog
import Lindenmayer.Proofs.Journal.Message
import Lindenmayer.Proofs.Outcome
import Lindenmayer.Proofs.Random.Unit
import Lindenmayer.Proofs.Rule.Acceptance
import Lindenmayer.Proofs.Rule.Alphabets
import Lindenmayer.Proofs.Rule.Compiling
import Lindenmayer.Proofs.Rule.Contents
import Lindenmayer.Proofs.Rule.Diagnosis
import Lindenmayer.Proofs.Rule.Faults
import Lindenmayer.Proofs.Rule.Grammar
import Lindenmayer.Proofs.Rule.History
import Lindenmayer.Proofs.Rule.Printing
import Lindenmayer.Proofs.Rule.Reading
import Lindenmayer.Proofs.Rule.Reordering
import Lindenmayer.Proofs.Rule.Scan
import Lindenmayer.Proofs.Rule.Table
import Lindenmayer.Proofs.Token.Alphabets
import Lindenmayer.Proofs.Token.Analyzer
import Lindenmayer.Proofs.Token.Calls
import Lindenmayer.Proofs.Token.Lookahead
import Lindenmayer.Proofs.Token.Pieces
import Lindenmayer.Proofs.Token.Spans
import Lindenmayer.Proofs.Token.Text
import Lindenmayer.Proofs.Toml.Document
import Lindenmayer.Proofs.Toml.Number
import Lindenmayer.Proofs.Toml.Quoted
import Lindenmayer.Proofs.Toml.Tree
import Lindenmayer.Proofs.Turtle.Acceptance
import Lindenmayer.Proofs.Turtle.Brackets
import Lindenmayer.Proofs.Turtle.Branch
import Lindenmayer.Proofs.Turtle.Breaking
import Lindenmayer.Proofs.Turtle.Events
import Lindenmayer.Proofs.Turtle.Jitter
import Lindenmayer.Proofs.Turtle.Reading
import Lindenmayer.Proofs.Turtle.Replay
import Lindenmayer.Proofs.Turtle.Shape
import Lindenmayer.Proofs.Turtle.Stem
import Lindenmayer.Proofs.Turtle.Stepping
import Lindenmayer.Proofs.Turtle.Telling
import Lindenmayer.Proofs.Word.Brackets
import Lindenmayer.Proofs.Word.Outline
import Lindenmayer.Proofs.Word.Printing
import Lindenmayer.Proofs.Word.Reading
import Lindenmayer.Random.ChaCha
import Lindenmayer.Random.Stream
import Lindenmayer.Rule
import Lindenmayer.Rule.Set
import Lindenmayer.Rule.Table
import Lindenmayer.Rule.Text
import Lindenmayer.Text.Blank
import Lindenmayer.Text.Cut
import Lindenmayer.Token
import Lindenmayer.Token.Analyzer
import Lindenmayer.Token.Cursor
import Lindenmayer.Token.Lexer
import Lindenmayer.Toml.Document
import Lindenmayer.Toml.Number
import Lindenmayer.Toml.Quoted
import Lindenmayer.Toml.Reader
import Lindenmayer.Toml.Tree
import Lindenmayer.Toml.Value
import Lindenmayer.Turtle.Pose
import Lindenmayer.Turtle.Stem
import Lindenmayer.Turtle.Walk
import Lindenmayer.Vector
import Lindenmayer.Word
