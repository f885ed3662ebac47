import Superstep.Algorithm.Components
import Superstep.Algorithm.PageRank
import Superstep.Algorithm.ShortestPaths
import Superstep.Cli.Files
import Superstep.Cli.Summary
import Superstep.EdgeList.Reader
import Superstep.EdgeList.Writer
import Superstep.Progress.Logging
import Superstep.Random.Graph
import Superstep.Run.Config.Reader

/-!
# Executing commands

A run loads its graph first, then settles its configuration, and then runs the algorithm. The
configuration that is given as JSON comes first; options replace what it says, and the algorithm
replaces the combiner and, for shortest paths, the nodes that are active at first.

Connected components are those of the undirected graph, so that they always add the reverse of every
relationship. A graph that is generated for shortest paths has weights.
-/

namespace Superstep.Cli

/-- Why a command fails. -/
inductive CommandError where
  /-- The configuration cannot be read. -/
  | config
  | graph (error : GraphError)
  | run (error : RunError)
deriving DecidableEq

namespace CommandError

/-- The wording of an error. -/
def message : CommandError → String
  | .config => "invalid --config"
  | .graph error => error.message
  | .run error => error.message

/-- The exit code of an error: 2 for a configuration that does not fit, 1 for a run that fails, 3
    for a graph that cannot be had. -/
def exitCode : CommandError → Nat
  | .config => 2
  | .run (.configuration _) => 2
  | .run _ => 1
  | .graph _ => 3

end CommandError

/-- The exit code of a command line that is not understood. -/
def usageExitCode : Nat := 2

/-! ## Graphs -/

namespace RunOptions

/-- Whether the graph has the reverse of every relationship. -/
def isUndirected (o : RunOptions) : Bool := o.undirected || o.algorithm = .components

/-- Reads the graph of a run from an edge list. -/
def readGraph [Memory.Allocator] (o : RunOptions) (bytes : List UInt8) :
    Except GraphError (OffsetTable Float) :=
  EdgeList.parseBytes bytes o.isUndirected

/-- Generates the graph of a run. -/
def generateGraph [Memory.Allocator] (o : RunOptions) (nodeCount : UInt64) :
    Except GraphError (OffsetTable Float) := do
  let g ← Random.seededGraph nodeCount o.degree o.seed (o.algorithm = .shortestPaths)
  if o.isUndirected then g.undirected else return g

/-- Gets the graph of a run. -/
def loadGraph [Memory.Allocator] {m : Type → Type} [Monad m] (o : RunOptions)
    (files : FileAccess m) :
    m (Except GraphError (OffsetTable Float)) :=
  match o.source with
  | .random nodeCount => return o.generateGraph nodeCount
  | .file path => do
    match ← files.read path with
    | .ok bytes => return o.readGraph bytes
    | .error reason => return .error (.io reason)

end RunOptions

/-- The graph that `generate` writes. -/
def GenerateOptions.graph [Memory.Allocator] (o : GenerateOptions) :
    Except GraphError (OffsetTable Float) :=
  Random.seededGraph o.nodeCount o.degree o.seed o.weighted

/-! ## Runs -/

/-- The number of workers of a run that is not told otherwise. -/
def defaultConcurrency : Nat := 1

/-- The combiner that an algorithm needs. -/
def Algorithm.combiner : Algorithm → Combiner
  | .components => .min
  | .pageRank => .sum
  | .shortestPaths => .min

/-- The configuration of a run. -/
def RunOptions.settle (o : RunOptions) : Except CommandError Config := do
  let given ←
    match o.config with
    | none => pure Config.Given.nothing
    | some text =>
      match Config.Given.parse? text with
      | some given => pure given
      | none => throw .config
  let config := given.complete defaultConcurrency
  return { config with
    concurrency := o.concurrency.getD config.concurrency
    maxIterations := o.maxIterations.getD config.maxIterations
    combiner := o.algorithm.combiner
    initialActive :=
      if o.algorithm = .shortestPaths then .nodes [o.origin] else config.initialActive }

/-- The log of a run: the state of its progress, and the events so far. -/
structure RunLog where
  progress : LoggingProgress
  events : Array ProgressEvent

/-- The tracker that keeps the log of a run. -/
def RunLog.tracker : Tracker RunLog where
  take report log :=
    let p := log.progress
    (⟨(p.take report).1, log.events ++ (p.events report).toArray⟩, p.panic? report)

/-- Runs a computation. -/
def runComputation [Memory.Allocator] {V M : Type} [Message M] (o : RunOptions) (g : Graph Float)
    (config : Config) (computation : Computation Float V M) (values : List V → NodeValues) :
    Except CommandError Summary × Array ProgressEvent :=
  match Run.new g config computation with
  | .error e => (.error (.run e), #[])
  | .ok run =>
    let outcome := run.perform RunLog.tracker ⟨LoggingProgress.new o.algorithm.name, #[]⟩ .never
    let ending :=
      match outcome.ending with
      | .finished result => .ok (Summary.ofResult o.algorithm values result)
      | .failed e => .error (.run e)
      | .unwound payload => .error (.run (.workerPanicked payload.message))
    (ending, outcome.tracker.events)

/-- Runs the algorithm of a run. -/
def RunOptions.runOn [Memory.Allocator] (o : RunOptions) (g : Graph Float) (config : Config) :
    Except CommandError Summary × Array ProgressEvent :=
  match o.algorithm with
  | .components =>
    runComputation o g config Components.computation (.labels <| ·.map Unsigned.toNat)
  | .pageRank => runComputation o g config (PageRank.computation PageRank.defaultDamping) .numbers
  | .shortestPaths => runComputation o g config (ShortestPaths.computation o.origin) .numbers

/-! ## Commands -/

/-- What a command has done. -/
inductive Completion where
  /-- A run has ended, with its summary. -/
  | finished (summary : Summary)
  /-- A graph is to be shown. -/
  | edgeList (text : String)
  /-- A graph has been saved. -/
  | saved

/-- What a run does with its graph, if it has got one. -/
def RunOptions.proceed [Memory.Allocator] (o : RunOptions)
    (loaded : Except GraphError (OffsetTable Float)) :
    Except CommandError Summary × Array ProgressEvent :=
  match loaded with
  | .error e => (.error (.graph e), #[])
  | .ok g =>
    match o.settle with
    | .error e => (.error e, #[])
    | .ok config => o.runOn g.toGraph config

/-- Executes `run`. -/
def RunOptions.execute [Memory.Allocator] {m : Type → Type} [Monad m] (o : RunOptions)
    (files : FileAccess m) : m (Except CommandError Summary × Array ProgressEvent) := do
  return o.proceed (← o.loadGraph files)

/-- Executes `generate`. -/
def GenerateOptions.execute [Memory.Allocator] {m : Type → Type} [Monad m] (o : GenerateOptions)
    (files : FileAccess m) : m (Except CommandError Completion) := do
  match o.graph with
  | .error e => return .error (.graph e)
  | .ok g =>
    let text := String.ofList (EdgeList.text g.toGraph)
    match o.output with
    | none => return .ok (.edgeList text)
    | some path =>
      match ← files.write path text with
      | .ok () => return .ok .saved
      | .error reason => return .error (.graph (.io reason))

/-- Executes a command. The events are what the run has logged. -/
def Command.execute [Memory.Allocator] {m : Type → Type} [Monad m] (command : Command)
    (files : FileAccess m) :
    m (Except CommandError Completion × Array ProgressEvent) :=
  match command with
  | .run o => do
    let (ending, events) ← o.execute files
    return (ending.map .finished, events)
  | .generate o => do return (← o.execute files, #[])

end Superstep.Cli
