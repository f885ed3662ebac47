import Superstep.Algorithm.Components
import Superstep.Algorithm.PageRank
import Superstep.Algorithm.ShortestPaths
import Superstep.Cli.Command
import Superstep.Cli.Execution
import Superstep.Cli.Files
import Superstep.Cli.Options
import Superstep.Cli.Summary
import Superstep.Decimal.Natural
import Superstep.Decimal.Real
import Superstep.Decimal.Scientific
import Superstep.Decimal.Shortest
import Superstep.EdgeList.Reader
import Superstep.EdgeList.Writer
import Superstep.Graph.ArcList
import Superstep.Graph.Basic
import Superstep.Graph.Builder
import Superstep.Graph.Error
import Superstep.Graph.Node
import Superstep.Graph.OffsetTable
import Superstep.Graph.Weight
import Superstep.Json.Basic
import Superstep.Json.Parser
import Superstep.Json.Printer
import Superstep.Main
import Superstep.Message.Binary64
import Superstep.Message.Combiner
import Superstep.Message.Mailboxes
import Superstep.Message.Payload
import Superstep.Message.Reduction
import Superstep.Progress.Logging
import Superstep.Progress.Recorder
import Superstep.Progress.Tracker
import Superstep.Proofs.Crew.Action
import Superstep.Proofs.Crew.Basic
import Superstep.Proofs.Crew.InOrder
import Superstep.Proofs.Crew.Invariant
import Superstep.Proofs.Crew.Store
import Superstep.Proofs.Crew.Reports
import Superstep.Proofs.Crew.Superstep
import Superstep.Proofs.Crew.Tracking
import Superstep.Proofs.Crew.Words
import Superstep.Proofs.Decimal.Natural
import Superstep.Proofs.EdgeList.Grammar
import Superstep.Proofs.EdgeList.RoundTrip
import Superstep.Proofs.EdgeList.Saving
import Superstep.Proofs.Graph.Builder
import Superstep.Proofs.Graph.CountingSort
import Superstep.Proofs.Graph.Made
import Superstep.Proofs.Graph.Rows
import Superstep.Proofs.Machine.Agreement
import Superstep.Proofs.Machine.Failure
import Superstep.Proofs.Machine.Frame
import Superstep.Proofs.Message.Collect
import Superstep.Proofs.Run.Accounting
import Superstep.Proofs.Run.Blame
import Superstep.Proofs.Run.Combining
import Superstep.Proofs.Run.Course
import Superstep.Proofs.Run.ExactlyOnce
import Superstep.Proofs.Run.Failures
import Superstep.Proofs.Run.Generations
import Superstep.Proofs.Run.Partition
import Superstep.Proofs.Progress.Logging
import Superstep.Proofs.Run.Progress
import Superstep.Proofs.Run.Refinement
import Superstep.Proofs.Run.Schedules
import Superstep.Proofs.Run.Start
import Superstep.Proofs.Run.Stopping
import Superstep.Proofs.Run.Truncation
import Superstep.Proofs.Storage.Bitset
import Superstep.Proofs.Storage.Paged
import Superstep.Proofs.Storage.View
import Superstep.Proofs.Storage.Walk
import Superstep.Proofs.Storage.Word
import Superstep.Proofs.Text.Fields
import Superstep.Proofs.Text.Numbers
import Superstep.Proofs.Text.Utf8
import Superstep.Proofs.Random.Weights
import Superstep.Random.Draws
import Superstep.Random.Graph
import Superstep.Random.KeyStream
import Superstep.Run.Cancellation
import Superstep.Run.Computation
import Superstep.Run.Config
import Superstep.Run.Config.Reader
import Superstep.Run.Engine
import Superstep.Run.Error
import Superstep.Run.Outbox
import Superstep.Run.Partition
import Superstep.Run.Round
import Superstep.Run.Worker
import Superstep.Script.Basic
import Superstep.Script.Payload
import Superstep.Storage.ActiveSet
import Superstep.Storage.Bitset
import Superstep.Storage.Memory
import Superstep.Storage.Paged
import Superstep.Storage.PagedView
import Superstep.Text.Fields
import Superstep.Word
import Superstep.Proofs.Graph.Undirected
import Superstep.Proofs.Graph.Walks
import Superstep.Proofs.Machine.Relaxation
import Superstep.Proofs.Run.Relaxation
import Superstep.Proofs.Algorithm.Components
import Superstep.Proofs.Algorithm.ShortestPaths
import Superstep.Proofs.Pool.Barrier
import Superstep.Proofs.Pool.Basic
import Superstep.Proofs.Pool.Course
import Superstep.Proofs.Pool.Invariant
import Superstep.Proofs.Pool.Driver
import Superstep.Proofs.Pool.Workers
import Superstep.Proofs.Pool.Protocol
import Superstep.Proofs.Graph.Finite
import Superstep.Proofs.EdgeList.Tables
import Superstep.Proofs.Cli.Files
import Superstep.Proofs.Cli.Loading
import Superstep.Proofs.Crew.Logging
import Superstep.Proofs.Crew.LoggingInTurn
import Superstep.Proofs.Run.Logging
import Superstep.Proofs.Storage.Writes
import Superstep.Proofs.Graph.Degrees
import Superstep.Proofs.Algorithm.PageRank
import Superstep.Proofs.Graph.Arcs
import Superstep.Proofs.Run.Twins
import Superstep.Proofs.Run.Reordering
import Superstep.Proofs.Message.Selection
import Superstep.Proofs.Crew.Deliveries
import Superstep.Proofs.Run.Selection
import Superstep.Proofs.Graph.Freezing
import Superstep.Proofs.Graph.Requests
import Superstep.Proofs.Storage.FiniteSet
import Superstep.Proofs.EdgeList.Faults
import Superstep.Proofs.Progress.Volumes
import Superstep.Proofs.Storage.Elements
import Superstep.Proofs.EdgeList.Limits
import Superstep.Proofs.Graph.FreezingWords
import Superstep.Proofs.Random.Shape
import Superstep.Proofs.Run.Division
import Superstep.Proofs.Storage.RangeWalk
import Superstep.Proofs.Crew.Broadcast
import Superstep.Proofs.Graph.Accessors
