import EventSourcing.Account
import EventSourcing.Account.Commands
import EventSourcing.Activity
import EventSourcing.Agenda
import EventSourcing.Aggregate
import EventSourcing.Assoc
import EventSourcing.Command.Description
import EventSourcing.Command.Dispatch
import EventSourcing.Command.Error
import EventSourcing.Command.Program
import EventSourcing.Config
import EventSourcing.Decimal.Basic
import EventSourcing.Decimal.Double
import EventSourcing.Decimal.Layout
import EventSourcing.Decimal.Shortest
import EventSourcing.Demo
import EventSourcing.Engine
import EventSourcing.Engine.Command
import EventSourcing.Engine.Error
import EventSourcing.Engine.Request
import EventSourcing.Engine.Run
import EventSourcing.Engine.Step
import EventSourcing.Entity
import EventSourcing.Entity.Error
import EventSourcing.Entity.Folding
import EventSourcing.Entity.Loader
import EventSourcing.Event
import EventSourcing.Json.Basic
import EventSourcing.Json.Decode
import EventSourcing.Json.Document
import EventSourcing.Json.Numeral
import EventSourcing.Json.Printer
import EventSourcing.Json.Reader
import EventSourcing.Lanes
import EventSourcing.Log.Directive
import EventSourcing.Log.FieldMatch
import EventSourcing.Log.Filter
import EventSourcing.Log.Level
import EventSourcing.Log.Pattern
import EventSourcing.Main
import EventSourcing.Metrics
import EventSourcing.Note
import EventSourcing.Pool
import EventSourcing.Pool.Error
import EventSourcing.Proofs.Entity.Replay
import EventSourcing.Proofs.Handler.Execution
import EventSourcing.Proofs.Interleaving
import EventSourcing.Proofs.Store.Commit
import EventSourcing.Proofs.Store.History
import EventSourcing.Proofs.Store.Order
import EventSourcing.Proofs.Store.Write
import EventSourcing.Rehearsal.Fault
import EventSourcing.Rehearsal.LaneTrial
import EventSourcing.Rehearsal.Play
import EventSourcing.Rehearsal.PoolTrial
import EventSourcing.Rehearsal.RetryTrial
import EventSourcing.Rehearsal.Script
import EventSourcing.Rehearsal.Session
import EventSourcing.Rehearsal.Tally
import EventSourcing.Retry
import EventSourcing.Retry.Backoff
import EventSourcing.Retry.Loop
import EventSourcing.Revision
import EventSourcing.Schema
import EventSourcing.Schema.Validate
import EventSourcing.Store.Access
import EventSourcing.Store.Error
import EventSourcing.Store.Feed
import EventSourcing.Store.Link
import EventSourcing.Store.Log
import EventSourcing.Text.Alphabetic
import EventSourcing.Text.Alphanumeric
import EventSourcing.Text.Blank
import EventSourcing.Text.Bytes
import EventSourcing.Text.Duration
import EventSourcing.Text.Glyphless
import EventSourcing.Text.Numeric
import EventSourcing.Text.Quoted
import EventSourcing.Timestamp
import EventSourcing.Timestamp.Rfc3339
import EventSourcing.Ulid
import EventSourcing.Ulid.Text
import EventSourcing.Word
import EventSourcing.World
import EventSourcing.Proofs.Handler.Cursor
import EventSourcing.Proofs.Handler.Conflict
import EventSourcing.Proofs.Guarantee
import EventSourcing.Proofs.Account.Lawful
import EventSourcing.Proofs.Account.Handlers
import EventSourcing.Proofs.Account.Sound
import EventSourcing.Proofs.Account.Bank
import EventSourcing.Proofs.Exclusive
import EventSourcing.Proofs.Handler.Effect
import EventSourcing.Proofs.Engine.Keep
import EventSourcing.Proofs.Engine.Steps
import EventSourcing.Proofs.Engine.Work
import EventSourcing.Proofs.Handler.Sequence
import EventSourcing.Proofs.Account.Decisions
import EventSourcing.Proofs.Handler.Unhandled
import EventSourcing.Proofs.Engine.Runs
import EventSourcing.Proofs.Engine.Serial
import EventSourcing.Proofs.Store.Contents
import EventSourcing.Proofs.Engine.Change
import EventSourcing.Proofs.Engine.Handlers
import EventSourcing.Proofs.Engine.Seats
import EventSourcing.Proofs.Engine.Lasting
import EventSourcing.Proofs.Engine.Course
import EventSourcing.Proofs.Engine.Holding
import EventSourcing.Proofs.Engine.Timely
import EventSourcing.Proofs.Engine.Starts
import EventSourcing.Proofs.Handler.Foreign
import EventSourcing.Proofs.Store.Publication
import EventSourcing.Proofs.Store.Watching
import EventSourcing.Proofs.Store.Overtaking
import EventSourcing.Proofs.Store.Lagging
import EventSourcing.Proofs.Engine.Traffic
import EventSourcing.Proofs.Engine.Passing
import EventSourcing.Proofs.Pool.Changes
import EventSourcing.Proofs.Pool.Handlers
import EventSourcing.Proofs.Pool.Capacity
import EventSourcing.Proofs.Lane.Handlers
import EventSourcing.Proofs.Lane.Turns
import EventSourcing.Proofs.Lane.Serializer
import EventSourcing.Proofs.Lane.Moments
import EventSourcing.Proofs.Lane.Timetable
import EventSourcing.Proofs.Lane.Follows
import EventSourcing.Proofs.Lane.Alone
import EventSourcing.Proofs.Lane.Isolation
import EventSourcing.Proofs.Account.Ledger
import EventSourcing.Proofs.Store.Masking
import EventSourcing.Proofs.Pool.Around
import EventSourcing.Proofs.Pool.Becomes
import EventSourcing.Proofs.Pool.Handled
import EventSourcing.Proofs.Pool.Prompt
import EventSourcing.Proofs.Pool.Story
import EventSourcing.Proofs.Pool.Drain
import EventSourcing.Proofs.Pool.Deadlines
import EventSourcing.Proofs.Store.WrittenOnce
import EventSourcing.Proofs.Account.Shapes
import EventSourcing.Proofs.Exchanges
import EventSourcing.Proofs.Handler.Traffic
import EventSourcing.Proofs.Handler.Stored
import EventSourcing.Proofs.Entity.Reading
import EventSourcing.Proofs.Text.ByteOrder
import EventSourcing.Proofs.Schema.Faults
import EventSourcing.Proofs.Text.Identifiers
import EventSourcing.Proofs.Handler.Retried
import EventSourcing.Proofs.Handler.Provenance
import EventSourcing.Proofs.Engine.Touches
import EventSourcing.Proofs.Engine.Settling
import EventSourcing.Proofs.Engine.Timeline
import EventSourcing.Proofs.Store.Clock
import EventSourcing.Proofs.Retry.Attempts
import EventSourcing.Proofs.Text.Revisions
import EventSourcing.Proofs.Account.Published
import EventSourcing.Proofs.Timestamp.Calendar
import EventSourcing.Proofs.Timestamp.Text
import EventSourcing.Proofs.Json.Events
import EventSourcing.Proofs.Text.Aggregates
import EventSourcing.Proofs.Retry.Windows
