import Metronome.Fault
import Metronome.Tick
import Metronome.Binary
import Metronome.Numeral
import Metronome.Decimal.Shortest
import Metronome.Decimal.Text
import Metronome.Decimal.Reading
import Metronome.Text.Unprintable
import Metronome.Text.Quoted
import Metronome.Clock
import Metronome.Clock.Exact
import Metronome.Duration
import Metronome.Confirmed
import Metronome.StepFlags
import Metronome.TimeRecord
import Metronome.Config
import Metronome.Config.Fields
import Metronome.Config.Json
import Metronome.Config.Yaml
import Metronome.Config.Load
import Metronome.StepPlan
import Metronome.Bracket
import Metronome.Scope
import Metronome.Arena
import Metronome.World
import Metronome.Server
import Metronome.TickSet
import Metronome.EntityId
import Metronome.Ghosts
import Metronome.Prediction.Setup
import Metronome.Prediction.Burst
import Metronome.Presentation
import Metronome.Json.Value
import Metronome.Json.Reading
import Metronome.Json.Decoding
import Metronome.Json.Records
import Metronome.Yaml.Source
import Metronome.Yaml.Scalar
import Metronome.Yaml.Scalar.Plain
import Metronome.Yaml.Scalar.Quoted
import Metronome.Yaml.Scalar.Block
import Metronome.Yaml.Tag
import Metronome.Yaml.Token
import Metronome.Yaml.Token.Directive
import Metronome.Yaml.Token.Layout
import Metronome.Yaml.Token.Lexer
import Metronome.Yaml.Node
import Metronome.Yaml.Node.Reader
import Metronome.Yaml.Document
import Metronome.Yaml.Values
import Metronome.CommandLine
import Metronome.CommandLine.Options
import Metronome.CommandLine.Request
import Metronome.CommandLine.Report
import Metronome.CommandLine.FrameLoop
import Metronome.Main
import Metronome.Proofs.Circle
import Metronome.Proofs.StepFlags
import Metronome.Proofs.Confirmed
import Metronome.Proofs.Bracket
import Metronome.Proofs.Discipline
import Metronome.Proofs.TickSet
import Metronome.Proofs.Prediction.Points
import Metronome.Proofs.Prediction.Plan
import Metronome.Proofs.Ghosts
import Metronome.Proofs.Prediction.Leg
import Metronome.Proofs.Prediction.Course
import Metronome.Proofs.Prediction.Replay
import Metronome.Proofs.Prediction.Tiling
import Metronome.Proofs.Prediction.Progress
import Metronome.Proofs.Prediction.Frame
import Metronome.Proofs.Prediction.Shape
import Metronome.Proofs.Prediction.Coverage
import Metronome.Proofs.Prediction.FirstTime
import Metronome.Proofs.Prediction.Phases
import Metronome.Proofs.Prediction.Rounds
import Metronome.Proofs.Prediction.FarSide
import Metronome.Proofs.Prediction.Window
import Metronome.Proofs.Prediction.Eligibility
import Metronome.Proofs.Prediction.Budgets
import Metronome.Proofs.Accumulator
import Metronome.Proofs.Server
import Metronome.Proofs.Presentation
import Metronome.Proofs.Visit
import Metronome.Proofs.Commute
import Metronome.Proofs.Prediction.Timeline
import Metronome.Proofs.Session
import Metronome.Proofs.Isolation
import Metronome.Proofs.Snapshots
import Metronome.Proofs.Nesting
import Metronome.Proofs.Rotation.Session
import Metronome.Proofs.Scopes
import Metronome.Proofs.Chronicle
import Metronome.Proofs.Skips
import Metronome.Proofs.Partition
import Metronome.Proofs.Prediction.Cleanup
import Metronome.Proofs.Prediction.Inert
import Metronome.Proofs.Quotient
import Metronome.Proofs.Residual
import Metronome.Proofs.Prediction.Countdown
import Metronome.Proofs.Snapping
import Metronome.Proofs.Batches
import Metronome.Proofs.Scratch
import Metronome.Proofs.Blocks
import Metronome.Proofs.Duration
import Metronome.Proofs.Pacing
import Metronome.Proofs.Neighbourhood
import Metronome.Proofs.OldestFirst
import Metronome.Proofs.Unwinding
import Metronome.Proofs.Json.Text
import Metronome.Proofs.Json.Ticks
import Metronome.Proofs.Provenance
