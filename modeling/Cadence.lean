import Cadence.Bus
import Cadence.Clock
import Cadence.CommandLine
import Cadence.Config
import Cadence.Config.Load
import Cadence.Config.Read
import Cadence.Config.Write
import Cadence.Daemon
import Cadence.Duration
import Cadence.Duration.Read
import Cadence.Duration.Write
import Cadence.Failure
import Cadence.Files
import Cadence.Frequency
import Cadence.Json.Number
import Cadence.Json.Read
import Cadence.Json.Write
import Cadence.Lifecycle
import Cadence.Lifecycle.Json
import Cadence.Main
import Cadence.Message
import Cadence.Message.Json
import Cadence.Metrics
import Cadence.Mismatch
import Cadence.Number.Binary
import Cadence.Number.Read
import Cadence.Number.Shortest
import Cadence.Number.Text
import Cadence.Pipeline
import Cadence.Policy
import Cadence.Proofs.Bus.Mailbox
import Cadence.Proofs.Bus.Pairs
import Cadence.Proofs.Clock
import Cadence.Proofs.Config.Breakdown
import Cadence.Proofs.Config.Overlay
import Cadence.Proofs.Config.RoundTrip
import Cadence.Proofs.Daemon.Rates
import Cadence.Proofs.Duration.Amounts
import Cadence.Proofs.Duration.RoundTrip
import Cadence.Proofs.Frequency
import Cadence.Proofs.Grid
import Cadence.Proofs.Json.Doubles
import Cadence.Proofs.Json.Floats
import Cadence.Proofs.Json.Numbers
import Cadence.Proofs.Json.Scaling
import Cadence.Proofs.Json.Singles
import Cadence.Proofs.Message.Objects
import Cadence.Proofs.Message.RoundTrip
import Cadence.Proofs.Metrics
import Cadence.Proofs.Metrics.Mean
import Cadence.Proofs.Metrics.Percentiles
import Cadence.Proofs.Metrics.Records
import Cadence.Proofs.Number.Doubles
import Cadence.Proofs.Number.Errors
import Cadence.Proofs.Number.Fractions
import Cadence.Proofs.Number.Margins
import Cadence.Proofs.Number.Naturals
import Cadence.Proofs.Number.Nonnegative
import Cadence.Proofs.Number.Patterns
import Cadence.Proofs.Number.Rounding
import Cadence.Proofs.Number.Shortest
import Cadence.Proofs.Pass
import Cadence.Proofs.Pipeline.Balance
import Cadence.Proofs.Queue.Waiters
import Cadence.Proofs.Ring.Fifo
import Cadence.Proofs.Roster.EarlyTicks
import Cadence.Proofs.Roster.Ledger
import Cadence.Proofs.Roster.Order
import Cadence.Proofs.Roster.Posts
import Cadence.Proofs.Roster.Row
import Cadence.Proofs.Roster.SkipMissed
import Cadence.Proofs.Roster.Stays
import Cadence.Proofs.Roster.Sweep
import Cadence.Proofs.RunLoop.CatchUp
import Cadence.Proofs.RunLoop.Delay
import Cadence.Proofs.RunLoop.EarlyWakes
import Cadence.Proofs.RunLoop.Frame
import Cadence.Proofs.RunLoop.Handles
import Cadence.Proofs.RunLoop.History
import Cadence.Proofs.RunLoop.Logs
import Cadence.Proofs.RunLoop.Measurements
import Cadence.Proofs.RunLoop.Moves
import Cadence.Proofs.RunLoop.OwnStop
import Cadence.Proofs.RunLoop.Phases
import Cadence.Proofs.RunLoop.Punctual
import Cadence.Proofs.RunLoop.Registry
import Cadence.Proofs.RunLoop.Sleep
import Cadence.Proofs.RunLoop.Slots
import Cadence.Proofs.RunLoop.StopCalls
import Cadence.Proofs.RunLoop.Stopping
import Cadence.Proofs.Signals
import Cadence.Proofs.Text.Digits
import Cadence.Proofs.Toml.Keys
import Cadence.Proofs.Toml.Lines
import Cadence.Proofs.Toml.Strings
import Cadence.Queue
import Cadence.Queue.Contention
import Cadence.Report
import Cadence.Ring
import Cadence.Ring.Lemmas
import Cadence.Roster
import Cadence.Roster.Tick
import Cadence.RunLoop
import Cadence.RunLoop.Fleet
import Cadence.RunLoop.Interleaving
import Cadence.Signals
import Cadence.Simulation
import Cadence.Simulation.Task
import Cadence.Text.Blank
import Cadence.Text.Invisible
import Cadence.Text.Quoted
import Cadence.Toml.Number
import Cadence.Toml.Read
import Cadence.Toml.Text
import Cadence.Toml.Time
import Cadence.Toml.Tree
import Cadence.Toml.Write
import Cadence.Traffic
