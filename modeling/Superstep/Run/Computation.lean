import Superstep.Graph.Basic
import Superstep.Message.Combiner
import Superstep.Progress.Tracker
import Superstep.Storage.Memory

/-!
# Computations

A computation says what a node starts with and what it does in a superstep. A step is a function of
what the node sees (`NodeView`): the graph, its id, the number of the superstep, its own value and
the messages that have reached it. Its `Outcome` is a new value, the messages it sends, in order,
and whether it votes to halt. A step may also fail, by an error or by a panic.

A node that votes to halt sleeps until a message reaches it. Messages that a step does not look at
are discarded with the others.
-/

namespace Superstep

/-- What the step of a node depends on. -/
structure NodeView (W V M : Type) where
  graph : Graph W
  node : NodeId
  superstep : Nat
  value : V
  messages : List M

/-- A message that a step sends. -/
inductive Send (M : Type) where
  | to (target : NodeId) (message : M)
  /-- A copy along each relationship that leaves the node. -/
  | toNeighbors (message : M)

/-- How a step fails. -/
inductive StepFailure where
  /-- The step returns an error, shown as the given text. -/
  | error (reason : String)
  | panic (payload : PanicPayload)
deriving DecidableEq

/-- A step that meets a fault of the graph panics. -/
def StepFailure.ofFault (fault : ReadFault) : StepFailure := .panic (.text fault.message)

/-- A step that asks for a list which does not fit in memory panics. -/
def StepFailure.overflow : StepFailure := .panic (.text Memory.overflow)

/-- What a step does. The value and the messages of a step that fails are those up to its
    failure. -/
structure Outcome (V M : Type) where
  value : V
  sends : List (Send M)
  halt : Bool
  failure : Option StepFailure

/-- A computation on graphs with weights `W`, with a value `V` at each node and messages `M`. -/
structure Computation (W V M : Type) where
  /-- The value of a node before superstep 0. -/
  init : Graph W → NodeId → V
  step : NodeView W V M → Outcome V M
  /-- A combiner of the computation's own, which comes before the configured one. -/
  combiner : Option (M → M → M)

namespace NodeView

variable {W V M : Type}

/-- Whether this is superstep 0. -/
def isInitial (view : NodeView W V M) : Bool := view.superstep = 0

/-- The number of relationships that leave the node. -/
def degree (view : NodeView W V M) : Nat := view.graph.degree view.node

/-- How a step fails that reads all relationships of the node, if it fails. -/
def fault? (view : NodeView W V M) : Option StepFailure :=
  (view.graph.fault? view.node).map .ofFault

/-- How a step fails that makes a list of the neighbours of the node, if it fails. Room for the list
    is reserved by the degree of the node before the first relationship is read. -/
def listFault? [Memory.Allocator] (view : NodeView W V M) : Option StepFailure :=
  if Memory.fits view.degree Memory.wordBytes then view.fault? else some .overflow

end NodeView

/-- The messages that a step sends, one by one. -/
def Send.expand {W M : Type} (g : Graph W) (node : NodeId) : Send M → List (NodeId × M)
  | .to target message => [(target, message)]
  | .toNeighbors message => (g.neighbors node).map fun target => (target, message)

end Superstep
