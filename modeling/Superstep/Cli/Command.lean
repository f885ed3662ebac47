import Superstep.Cli.Options
import Superstep.Decimal.Natural
import Superstep.Graph.Node

/-!
# The commands

There are two commands: `run` loads or generates a graph and runs an algorithm on it, and `generate`
writes a random graph. `Invocation.read?` reads the command line; it fails if there is anything on
it that is not understood, missing or given twice.
-/

namespace Superstep.Cli

/-- The algorithms that can be run. -/
inductive Algorithm where
  | components
  | pageRank
  | shortestPaths
deriving DecidableEq

namespace Algorithm

/-- The name of an algorithm. -/
def name : Algorithm → String
  | .components => "components"
  | .pageRank => "pagerank"
  | .shortestPaths => "sssp"

/-- The algorithm with exactly the given name. -/
def ofName? (name : String) : Option Algorithm :=
  [Algorithm.components, .pageRank, .shortestPaths].find? (·.name = name)

end Algorithm

/-- Where the graph of a run comes from. -/
inductive GraphSource where
  | file (path : String)
  | random (nodeCount : UInt64)
deriving DecidableEq

/-- What `run` is told. -/
structure RunOptions where
  source : GraphSource
  /-- The number of relationships of each node of a generated graph. -/
  degree : Nat
  seed : UInt64
  algorithm : Algorithm
  /-- The node from which shortest paths start. -/
  origin : NodeId
  concurrency : Option Nat
  maxIterations : Option Nat
  /-- Whether the reverse of every relationship is added. -/
  undirected : Bool
  /-- A configuration as JSON. The other options come before it. -/
  config : Option String
deriving DecidableEq

/-- What `generate` is told. -/
structure GenerateOptions where
  nodeCount : UInt64
  degree : Nat
  seed : UInt64
  weighted : Bool
  /-- The file to write to. -/
  output : Option String
deriving DecidableEq

/-- A command. -/
inductive Command where
  | run (options : RunOptions)
  | generate (options : GenerateOptions)
deriving DecidableEq

/-- A command line. -/
structure Invocation where
  /-- Whether progress is to be shown. -/
  verbose : Bool
  command : Command
deriving DecidableEq

/-! ## Values -/

/-- Reads a 64-bit number. -/
def readWord? (text : String) : Option UInt64 := (Decimal.readUInt64 text.toList).toOption

/-- Reads a number of supersteps. A number below 2 ^ 32 may have either sign if it is zero. -/
def readIterations? (text : String) : Option Nat :=
  match text.toList with
  | '-' :: '+' :: _ => none
  | '-' :: digits => (Decimal.readNat 1 digits).toOption
  | digits => (Decimal.readNat halfWordLimit digits).toOption

/-- Reads the path of a file, which is not empty. -/
def readPath? (text : String) : Option String := if text.isEmpty then none else some text

/-- Reads the value of an option, if it is given. -/
def optional? {α : Type} (read? : String → Option α) (found : List Occurrence) (spec : OptionSpec) :
    Option (Option α) :=
  match Occurrence.value? found spec with
  | none => some none
  | some text => (read? text).map some

/-- Reads the value of an option, with a value to use if it is not given. -/
def withDefault? {α : Type} (read? : String → Option α) (standard : α) (found : List Occurrence)
    (spec : OptionSpec) : Option α :=
  (optional? read? found spec).map (·.getD standard)

/-! ## Commands -/

/-- The switch that shows progress. It may stand before and after the name of the command. -/
def verboseSpec : OptionSpec := ⟨"verbose", some 'v', false, true⟩

/-- The number of relationships per node that is used if none is given. -/
def defaultDegree : Nat := 4

namespace RunOptions

/-! ### The options of `run`, one by one -/

def edgesSpec : OptionSpec := valued "edges" none
def randomSpec : OptionSpec := valued "random" none
def degreeSpec : OptionSpec := valued "degree" none
def seedSpec : OptionSpec := valued "seed" none
def algorithmSpec : OptionSpec := valued "algorithm" (some 'a')
def originSpec : OptionSpec := valued "source" none
def concurrencySpec : OptionSpec := valued "concurrency" (some 'c')
def maxIterationsSpec : OptionSpec := valued "max-iterations" (some 'i')
def undirectedSpec : OptionSpec := switch "undirected" none
def configSpec : OptionSpec := valued "config" none

/-- The options of `run`. -/
def specs : List OptionSpec :=
  [verboseSpec, edgesSpec, randomSpec, degreeSpec, seedSpec, algorithmSpec, originSpec,
    concurrencySpec, maxIterationsSpec, undirectedSpec, configSpec]

/-- Reads where the graph comes from: exactly one place has to be given. -/
def readSource? (found : List Occurrence) : Option GraphSource := do
  let path ← optional? readPath? found edgesSpec
  let nodeCount ← optional? readWord? found randomSpec
  match path, nodeCount with
  | some path, none => return .file path
  | none, some nodeCount => return .random nodeCount
  | _, _ => none

/-- Reads the options of `run`. -/
def read? (found : List Occurrence) : Option RunOptions := do
  let source ← readSource? found
  let degree ← withDefault? readWord? defaultDegree.toUInt64 found degreeSpec
  let seed ← withDefault? readWord? 0 found seedSpec
  let algorithm ← withDefault? Algorithm.ofName? .components found algorithmSpec
  let origin ← withDefault? readWord? 0 found originSpec
  let concurrency ← optional? readWord? found concurrencySpec
  let maxIterations ← optional? readIterations? found maxIterationsSpec
  let config ← optional? some found configSpec
  return {
    source, degree := degree.toNat, seed, algorithm, origin := ⟨origin⟩
    concurrency := concurrency.map UInt64.toNat
    maxIterations
    undirected := Occurrence.has found undirectedSpec
    config }

end RunOptions

namespace GenerateOptions

/-! ### The options of `generate`, one by one -/

def nodesSpec : OptionSpec := valued "nodes" (some 'n')
def degreeSpec : OptionSpec := valued "degree" (some 'd')
def seedSpec : OptionSpec := valued "seed" (some 's')
def weightedSpec : OptionSpec := switch "weighted" none
def outputSpec : OptionSpec := valued "output" (some 'o')

/-- The options of `generate`. -/
def specs : List OptionSpec :=
  [verboseSpec, nodesSpec, degreeSpec, seedSpec, weightedSpec, outputSpec]

/-- Reads the options of `generate`. -/
def read? (found : List Occurrence) : Option GenerateOptions := do
  let nodeCount ← (Occurrence.value? found nodesSpec).bind readWord?
  let degree ← withDefault? readWord? defaultDegree.toUInt64 found degreeSpec
  let seed ← withDefault? readWord? 0 found seedSpec
  let output ← optional? readPath? found outputSpec
  return {
    nodeCount, degree := degree.toNat, seed
    weighted := Occurrence.has found weightedSpec
    output }

end GenerateOptions

namespace Command

/-- Reads a command from its name and its arguments. The result says too whether it is to be
    verbose. -/
def read? (name : String) (arguments : List String) : Option (Command × Bool) :=
  if name = "run" then do
    let found ← Occurrence.scan? RunOptions.specs arguments
    let options ← RunOptions.read? found
    return (.run options, Occurrence.has found verboseSpec)
  else if name = "generate" then do
    let found ← Occurrence.scan? GenerateOptions.specs arguments
    let options ← GenerateOptions.read? found
    return (.generate options, Occurrence.has found verboseSpec)
  else none

end Command

namespace Invocation

/-- Reads a command line: switches, the name of a command, and its arguments. -/
def read? : List String → Option Invocation
  | [] => none
  | argument :: rest =>
    match Argument.ofString argument with
    | .plain name => (Command.read? name rest).map fun (command, verbose) => ⟨verbose, command⟩
    | _ => do
      let found ← Occurrence.scan? [verboseSpec] [argument]
      let invocation ← read? rest
      if found.isEmpty then none else return { invocation with verbose := true }

end Invocation

end Superstep.Cli
