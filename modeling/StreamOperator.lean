import StreamOperator.Time.Duration
import StreamOperator.Time.Instant
import StreamOperator.Time.Calendar
import StreamOperator.Time.Domain
import StreamOperator.Window
import StreamOperator.Element
import StreamOperator.Json.Document
import StreamOperator.Json.Printer
import StreamOperator.Json.Reader
import StreamOperator.Decimal.Shortest
import StreamOperator.Json.Fields
import StreamOperator.Json.Number
import StreamOperator.Json.Value
import StreamOperator.Element.Format
import StreamOperator.Text.GraphemeExtend
import StreamOperator.Text.Quoted
import StreamOperator.Time.Format
import StreamOperator.Window.Format
import StreamOperator.Error
import StreamOperator.Key.Basic
import StreamOperator.Key.Coder
import StreamOperator.Config.Basic
import StreamOperator.Output
import StreamOperator.State.Address
import StreamOperator.Pushback
import StreamOperator.State.Store
import StreamOperator.Timer.Basic
import StreamOperator.Timer.Schedule
import StreamOperator.Grouping
import StreamOperator.Watermark.Sources
import StreamOperator.Watermark.Tracker
import StreamOperator.Bundle.Staging
import StreamOperator.Function.Context
import StreamOperator.Runner.Basic
import StreamOperator.Runner.Bundle
import StreamOperator.Runner.Input
import StreamOperator.Executor.Basic
import StreamOperator.Executor.Bundles
import StreamOperator.Splittable.Function
import StreamOperator.Function.Program
import StreamOperator.Json.Access
import StreamOperator.Splittable.Claiming
import StreamOperator.Function.Recording
import StreamOperator.Runner.Recording
import StreamOperator.Splittable.Recording
import StreamOperator.Proofs.Collections
import StreamOperator.Proofs.Session
import StreamOperator.Proofs.Time.Instant
import StreamOperator.Proofs.Time.Arithmetic
import StreamOperator.Proofs.Timer.Schedule
import StreamOperator.Proofs.Timer.Book
import StreamOperator.Proofs.Bundle.Overlay
import StreamOperator.Proofs.Watermark.Tracker
import StreamOperator.Proofs.Watermark.Sources
import StreamOperator.Proofs.Pushback
import StreamOperator.Proofs.Function.Record
import StreamOperator.Proofs.Function.Order
import StreamOperator.Proofs.Runner.Bundle
import StreamOperator.Proofs.Runner.Boundaries
import StreamOperator.Proofs.Runner.Watermark
import StreamOperator.Proofs.Runner.Calls
import StreamOperator.Proofs.Runner.Sound
import StreamOperator.Proofs.Runner.Markers
import StreamOperator.Proofs.Runner.PendingTimers
import StreamOperator.Proofs.Runner.Atomicity
import StreamOperator.Proofs.Runner.Conservation
import StreamOperator.Proofs.Runner.Waiting
import StreamOperator.Proofs.Timer.Rounds
import StreamOperator.Proofs.Runner.Passes
import StreamOperator.Proofs.Runner.Lifecycle
import StreamOperator.Proofs.Runner.Timeliness
import StreamOperator.Proofs.Grouping
import StreamOperator.Proofs.Splittable.Tracker
import StreamOperator.Proofs.Splittable.Chain
import StreamOperator.Proofs.Bundle.Keys
import StreamOperator.Proofs.Runner.KeyIndependence
import StreamOperator.Proofs.Runner.StepSize
import StreamOperator.Proofs.Executor.Bundles
import StreamOperator.Proofs.Runner.ForwardTimers
import StreamOperator.Proofs.Json.Faithful
import StreamOperator.Proofs.State.Snapshot
import StreamOperator.Proofs.Watermark.Failures
import StreamOperator.Proofs.Bundle.Reads
import StreamOperator.Proofs.Runner.Turns
import StreamOperator.Proofs.Runner.Refusals
import StreamOperator.Proofs.Runner.SideValues
import StreamOperator.Proofs.Config
import StreamOperator.Proofs.Output
import StreamOperator.Proofs.Function.Requests
import StreamOperator.Proofs.Runner.Effects
import StreamOperator.Proofs.Runner.Channels
import StreamOperator.Proofs.Runner.Confinement
import StreamOperator.Proofs.Runner.Residuals
