import Superstep.Run.Config
import Superstep.Run.Outbox
import Superstep.Run.Partition
import Superstep.Storage.PagedView

/-!
# Workers

A worker owns a partition. In a superstep it executes the active nodes of its partition in ascending
order, reports progress after every full batch and once more for what is left, and at the end
removes its nodes from the active nodes of the superstep.

A failure ends the superstep of the worker at once. A panic is attributed to the node that was being
executed, if there is one: from the moment a node is picked until the worker is through with its
nodes, a panic counts as that node's, also one of the tracker at a full batch. A panic of the
tracker at the last report counts as the worker's.
-/

namespace Superstep

/-- What a run stores for its nodes: their values, their mailboxes, and which are active. -/
structure NodeStore (V M : Type) where
  values : PagedArray V
  mail : Mailboxes M
  active : ActiveSet

/-- What stays the same during a run. -/
structure Job (W V M T : Type) where
  graph : Graph W
  computation : Computation W V M
  reduction : Reduction M
  batchSize : Nat
  tracker : Tracker T

namespace Job

variable {W V M T : Type}

/-- Where messages go in superstep `t`. Mailboxes grow as needed. -/
def channel (job : Job W V M T) (t : Nat) : Channel M :=
  ⟨job.reduction, t, job.graph.nodeCount, fun _ _ => true⟩

end Job

/-- A worker on its way through its active nodes. -/
structure Sweep (V M T : Type) where
  values : PagedArray V
  /-- The mailboxes, the active nodes of the next superstep, and the counts. -/
  out : Outbox M
  tracker : T
  /-- The number of nodes executed since the last report. -/
  unreported : Nat
  failure : Option RunError

/-- A worker: its partition and its view of the values. -/
structure Worker where
  partition : Partition
  view : PagedView

namespace Worker

variable {W V M T : Type}

/-- The error of a step that fails. -/
def stepError (node : NodeId) (t : Nat) : StepFailure → RunError
  | .error reason => .computation node t reason
  | .panic payload => .computationPanicked node t payload.message

/-- The error of a step that fails by itself, or whose messages could not be sent. A panic comes
    first: it ends the step while its messages go out. A failure of the step itself comes before a
    message that is not delivered, which is looked at once the step has returned. -/
def failureOf? (node : NodeId) (t : Nat) (nodeCount : UInt64) :
    Option StepFailure → Option SendFailure → Option RunError
  | _, some (.unreadable fault) => some (stepError node t (.ofFault fault))
  | some failure, _ => some (stepError node t failure)
  | none, some (.unknownTarget target) => some (.invalidTarget node t target nodeCount)
  | none, some (.allocation e) => some (e.toRunError "inbox messages")
  | none, none => none

/-- Reports a full batch. A panic of the tracker counts as a panic of `node`. -/
def reportBatch (job : Job W V M T) (t : Nat) (node : NodeId) (s : Sweep V M T) : Sweep V M T :=
  if s.unreported ≥ job.batchSize then
    match job.tracker.take (.logProgress s.unreported) s.tracker with
    | (tracker, none) => { s with tracker, unreported := 0 }
    | (tracker, some payload) =>
      { s with tracker, failure := some (.computationPanicked node t payload.message) }
  else s

/-- Takes in what the step of a node has done: its value and its messages. The messages that the
    node has read are discarded. -/
def absorb [Message M] (job : Job W V M T) (t : Nat) (view : PagedView) (s : Sweep V M T) (i : Nat)
    (value : V) (sends : List (Send M)) : Sweep V M T :=
  match s with
  | ⟨values, ⟨mail, next, tally, _⟩, tracker, unreported, failure⟩ =>
    let out := Outbox.sendAll (job.channel t) job.graph (.ofIndex i)
      ⟨mail.discard t i, next, tally, none⟩ sends
    ⟨values.viewSet view i value, out, tracker, unreported, failure⟩

/-- Counts a node that has been executed, and keeps it awake unless it halts. -/
def settle (s : Sweep V M T) (i : Nat) (halt : Bool) : Sweep V M T :=
  match s with
  | ⟨values, out, tracker, unreported, failure⟩ =>
    let out := if halt then out else out.activate i
    ⟨values, { out with tally := { out.tally with processed := out.tally.processed + 1 } }, tracker,
      unreported + 1, failure⟩

/-- Executes a node on its value and its messages. -/
def execute [Message M] (job : Job W V M T) (t : Nat) (view : PagedView) (s : Sweep V M T) (i : Nat)
    (value : V) (messages : List M) : Sweep V M T :=
  let node := NodeId.ofIndex i
  let outcome := job.computation.step ⟨job.graph, node, t, value, messages⟩
  let s := absorb job t view s i outcome.value outcome.sends
  match failureOf? node t job.graph.nodeCount outcome.failure s.out.failure with
  | some error => { s with failure := some error }
  | none => reportBatch job t node (settle s i outcome.halt)

/-- Executes the node in slot `i`. A node without a value or a mailbox is passed over. -/
def visit [Message M] (job : Job W V M T) (t : Nat) (view : PagedView) (s : Sweep V M T) (i : Nat) :
    Sweep V M T :=
  match s.values.viewGet? view i, s.out.mail.waiting? t i with
  | some value, some messages => execute job t view s i value messages.toList
  | _, _ => s

/-- Executes nodes until one of them fails. -/
def visitAll [Message M] (job : Job W V M T) (t : Nat) (view : PagedView) :
    Sweep V M T → List Nat → Sweep V M T
  | s, [] => s
  | s, i :: rest =>
    let s := visit job t view s i
    if s.failure.isSome then s else visitAll job t view s rest

/-- Reports what has not been reported. A panic of the tracker counts as the worker's. -/
def reportRest (job : Job W V M T) (s : Sweep V M T) : Sweep V M T :=
  if s.unreported > 0 then
    match job.tracker.take (.logProgress s.unreported) s.tracker with
    | (tracker, none) => { s with tracker, unreported := 0 }
    | (tracker, some payload) =>
      { s with tracker, failure := some (.workerPanicked payload.message) }
  else s

/-- The active nodes of the partition, in ascending order. -/
def activeNodes (w : Worker) (current : Bitset) : List Nat :=
  (current.members? w.partition.start w.partition.stop).getD []

/-- A worker that starts its superstep. -/
def start (t : Nat) (store : NodeStore V M) (tracker : T) : Sweep V M T :=
  ⟨store.values, ⟨store.mail, store.active.next t, Tally.zero, none⟩, tracker, 0, none⟩

/-- Executes the given nodes and reports them. -/
def sweep [Message M] (job : Job W V M T) (t : Nat) (view : PagedView) (nodes : List Nat)
    (s : Sweep V M T) : Sweep V M T :=
  let s := visitAll job t view s nodes
  if s.failure.isSome then s else reportRest job s

/-- The superstep of one worker: what it stores, and what is left of its sweep. When another worker
    has failed (`aborted`) it picks up no node. A worker that does not fail removes its nodes from
    the active nodes of the superstep. -/
def process [Message M] (job : Job W V M T) (t : Nat) (aborted : Bool) (w : Worker)
    (store : NodeStore V M) (tracker : T) : NodeStore V M × Sweep V M T :=
  let current := store.active.current t
  let nodes := if aborted then [] else w.activeNodes current
  let s := sweep job t w.view nodes (start t store tracker)
  let current :=
    if s.failure.isSome then current else (current.clear w.partition.start w.partition.stop).1
  (⟨s.values, s.out.mail, .join t current s.out.next⟩, s)

end Worker

end Superstep
