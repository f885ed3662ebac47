import Superstep.Message.Mailboxes
import Superstep.Run.Computation
import Superstep.Run.Error
import Superstep.Storage.ActiveSet

/-!
# Sending messages

While a step is carried out its messages go out one after the other. Each is put into the mailbox of
its target and wakes the target up for the next superstep. The first message to an id that is not of
the graph, or for which there is no room, is a failure: the messages of the step after it are
dropped, and the run fails once the step has returned. A message along the relationships of a node
also fails when these cannot be read.

Main statements: `sendTo_of_failed`, after a failure nothing is sent; `failure_sendTo`, a failure
once recorded is never replaced.
-/

namespace Superstep

/-- Counts of one superstep. -/
structure Tally where
  /-- Nodes executed. -/
  processed : Nat
  sent : Nat
  /-- Messages reduced with one that was waiting. -/
  combined : Nat
  /-- Nodes added to the active nodes of the next superstep. -/
  activated : Nat
deriving DecidableEq

namespace Tally

/-- All counts zero. -/
def zero : Tally := ⟨0, 0, 0, 0⟩

/-- The sum of two counts. -/
def add (a b : Tally) : Tally :=
  ⟨a.processed + b.processed, a.sent + b.sent, a.combined + b.combined, a.activated + b.activated⟩

end Tally

/-- Where the messages of one superstep go. -/
structure Channel (M : Type) where
  reduction : Reduction M
  superstep : Nat
  /-- Targets are the ids below this number. -/
  nodeCount : UInt64
  /-- Whether a mailbox can grow by a message. -/
  grows : Mailboxes M → Nat → Bool

/-- Why a message could not be sent. -/
inductive SendFailure where
  | unknownTarget (target : NodeId)
  /-- The mailbox of the target cannot grow. -/
  | allocation (e : AllocationError)
  /-- The relationships of the sender cannot be read. -/
  | unreadable (fault : ReadFault)
deriving DecidableEq

/-- What the messages of steps change: mailboxes, the active nodes of the next superstep, and the
    counts; and the first failure of the current step. -/
structure Outbox (M : Type) where
  mail : Mailboxes M
  next : Bitset
  tally : Tally
  failure : Option SendFailure

/-- The failure of a message that is not put into the mailbox of `target`. -/
def SendError.toFailure (target : NodeId) : SendError → SendFailure
  | .unknownTarget => .unknownTarget target
  | .allocation e => .allocation e

namespace Outbox

variable {W M : Type}

/-- Wakes a node up, and counts it if it was not yet awake. -/
def activate (o : Outbox M) (i : Nat) : Outbox M :=
  match o.next.contains? i with
  | some false =>
    { o with
      next := o.next.insert i
      tally := { o.tally with activated := o.tally.activated + 1 } }
  | _ => o

/-- Records a failure, and sends nothing. -/
def fail (o : Outbox M) (f : SendFailure) : Outbox M := { o with failure := some f }

/-- Takes in what has become of a message, and wakes up its target. -/
def settle (o : Outbox M) (target : NodeId) (delivery : Delivery) : Outbox M :=
  let combined := if delivery = .combined then 1 else 0
  activate
    { o with
      tally := { o.tally with
        sent := o.tally.sent + 1
        combined := o.tally.combined + combined } }
    target.index

/-- Sends one message. -/
def sendTo [Message M] (c : Channel M) (o : Outbox M) (target : NodeId) (message : M) : Outbox M :=
  if o.failure.isSome then o
  else if target.val ≥ c.nodeCount then o.fail (.unknownTarget target)
  else
    match o with
    | ⟨mail, next, tally, failure⟩ =>
      match mail.send c.grows c.reduction c.superstep target.index message with
      | (mail, .ok delivery) => settle ⟨mail, next, tally, failure⟩ target delivery
      | (mail, .error e) => fail ⟨mail, next, tally, failure⟩ (e.toFailure target)

/-- Sends a copy of a message along each relationship that leaves `node`, and stops at the first
    failure. -/
def sendToNeighbors [Message M] (c : Channel M) (g : Graph W) (node : NodeId) (o : Outbox M)
    (message : M) : Outbox M :=
  let (o, fault?) := g.visit node
    (fun o target _ =>
      let o := o.sendTo c target message
      (o, o.failure.isNone))
    o
  match fault? with
  | some fault => o.fail (.unreadable fault)
  | none => o

/-- Sends what a step sends, in order. -/
def sendAll [Message M] (c : Channel M) (g : Graph W) (node : NodeId) (o : Outbox M)
    (sends : List (Send M)) : Outbox M :=
  sends.foldl
    (fun o send =>
      match send with
      | .to target message => o.sendTo c target message
      | .toNeighbors message => o.sendToNeighbors c g node message)
    o

/-- After a failure nothing is sent. -/
theorem sendTo_of_failed [Message M] {c : Channel M} {o : Outbox M} (h : o.failure.isSome)
    (target : NodeId) (message : M) : o.sendTo c target message = o := by
  simp [sendTo, h]

@[simp] theorem failure_activate (o : Outbox M) (i : Nat) : (o.activate i).failure = o.failure := by
  unfold activate
  split <;> rfl

/-- A failure once recorded is never replaced. -/
theorem failure_sendTo [Message M] {c : Channel M} {o : Outbox M} {f : SendFailure}
    (h : o.failure = some f) (target : NodeId) (message : M) :
    (o.sendTo c target message).failure = some f := by
  rw [sendTo_of_failed (by simp [h])]
  exact h

end Outbox

end Superstep
