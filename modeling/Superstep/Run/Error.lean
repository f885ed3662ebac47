import Superstep.Graph.Node
import Superstep.Message.Combiner
import Superstep.Progress.Tracker
import Superstep.Storage.Memory

/-!
# Errors of runs

Every error ends a run without a result. `RunError.message` is the only place with the wording;
`RunError.location?` names the node and the superstep that an error is attributed to.

Cancellation is not an error: a cancelled run has a result.
-/

namespace Superstep

/-- Why a run is not started. -/
inductive ConfigFault where
  | concurrency (got : Nat)
  | maxIterations
  | progressBatchSize
  | initialNode (node : NodeId) (nodeCount : Nat)
  | combiner (kind : Combiner)
  /-- A cause in words. -/
  | stated (reason : String)
deriving DecidableEq

/-- An error that ends a run. -/
inductive RunError where
  | configuration (fault : ConfigFault)
  /-- The step of a node returned an error. -/
  | computation (node : NodeId) (superstep : Nat) (reason : String)
  /-- The step of a node panicked. -/
  | computationPanicked (node : NodeId) (superstep : Nat) (message : String)
  /-- The step of a node sent a message to an id that is not of the graph. -/
  | invalidTarget (node : NodeId) (superstep : Nat) (target : NodeId) (nodeCount : UInt64)
  | resourceExhausted (what : String) (requested : Nat)
  /-- A worker panicked outside of a step. -/
  | workerPanicked (message : String)
deriving DecidableEq

/-- The largest number of workers. -/
def maxConcurrency : Nat := 1024

/-- The wording of a configuration's fault. -/
def ConfigFault.message : ConfigFault → String
  | .concurrency got =>
    "concurrency must be between 1 and " ++ Decimal.text maxConcurrency ++ ", got " ++
      Decimal.text got
  | .maxIterations => "max_iterations must be at least 1"
  | .progressBatchSize => "progress_batch_size must be at least 1"
  | .initialNode node n =>
    "initial node " ++ node.text ++ " is not in the graph (node count " ++ Decimal.text n ++ ")"
  | .combiner kind => "combiner '" ++ kind.name ++ "' is not supported by message type"
  | .stated reason => reason

namespace RunError

/-- The wording of an error. -/
def message : RunError → String
  | .configuration fault => "invalid configuration: " ++ fault.message
  | .computation node t reason =>
    "computation failed at node " ++ node.text ++ " in superstep " ++ Decimal.text t ++ ": " ++
      reason
  | .computationPanicked node t message =>
    "computation panicked at node " ++ node.text ++ " in superstep " ++ Decimal.text t ++ ": " ++
      message
  | .invalidTarget node t target n =>
    "node " ++ node.text ++ " sent a message to unknown node " ++ target.text ++ " in superstep " ++
      Decimal.text t ++ " (node count " ++ Decimal.text n.toNat ++ ")"
  | .resourceExhausted what n =>
    "resource exhausted while allocating " ++ what ++ " (" ++ Decimal.text n ++ " elements)"
  | .workerPanicked message => "worker thread panicked: " ++ message

/-- The node and the superstep that an error is attributed to, when it comes from a step. -/
def location? : RunError → Option (NodeId × Nat)
  | .computation node t _ => some (node, t)
  | .computationPanicked node t _ => some (node, t)
  | .invalidTarget node t _ _ => some (node, t)
  | _ => none

end RunError

/-- The error of a run whose storage cannot be reserved. -/
def AllocationError.toRunError (e : AllocationError) (what : String) : RunError :=
  .resourceExhausted what e.requested

end Superstep
