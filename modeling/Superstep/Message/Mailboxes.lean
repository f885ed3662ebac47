import Superstep.Message.Reduction
import Superstep.Storage.Paged

/-!
# Mailboxes

Every node has two mailboxes, one for the even and one for the odd supersteps. During superstep `t`
a node reads its mailbox of the parity of `t`, and what is sent goes to the mailboxes of the other
parity, which are read in superstep `t + 1`. Reading a mailbox empties it.

Main statements: `deliver_of_not_combining`, without a combiner a message is stored after those
that wait; `deliver_empty`, the first message is stored whatever the reduction.
-/

namespace Superstep

/-- The mailboxes of even and of odd supersteps, one of each per node. -/
structure Mailboxes (M : Type) where
  even : PagedArray (Array M)
  odd : PagedArray (Array M)

/-- What became of a message. -/
inductive Delivery where
  /-- It waits by itself. -/
  | stored
  /-- It was reduced with the message that was waiting. -/
  | combined
deriving DecidableEq

/-- Why a message is not put into a mailbox. -/
inductive SendError where
  | unknownTarget
  /-- The mailbox of the target cannot grow. -/
  | allocation (e : AllocationError)
deriving DecidableEq

namespace Mailboxes

variable {M : Type}

/-- Reserves empty mailboxes. -/
def new [Memory.Allocator] (nodeCount : Nat) : Except AllocationError (Mailboxes M) := do
  let even ← PagedArray.new nodeCount PagedArray.defaultShift fun _ => #[]
  let odd ← PagedArray.new nodeCount PagedArray.defaultShift fun _ => #[]
  return ⟨even, odd⟩

/-- The mailboxes that are read in superstep `t`. -/
def inboxes (b : Mailboxes M) (t : Nat) : PagedArray (Array M) :=
  if t % 2 = 0 then b.even else b.odd

/-- The messages that wait for a node in superstep `t`. -/
def waiting? (b : Mailboxes M) (t node : Nat) : Option (Array M) := (b.inboxes t).get? node

/-- Changes the mailbox of a node that is read in superstep `t`. -/
def modify (b : Mailboxes M) (t node : Nat) (f : Array M → Array M) : Mailboxes M :=
  match b with
  | ⟨even, odd⟩ => if t % 2 = 0 then ⟨even.modify node f, odd⟩ else ⟨even, odd.modify node f⟩

/-- Empties the mailbox of a node that is read in superstep `t`. -/
def discard (b : Mailboxes M) (t node : Nat) : Mailboxes M := b.modify t node fun _ => #[]

/-- Puts a message into a mailbox. A combining reduction reduces it with the last message there. -/
def deliver [Message M] (r : Reduction M) (message : M) (box : Array M) : Array M :=
  match r.isCombining, box.back? with
  | true, some current => box.pop.push (r.apply current message)
  | _, _ => box.push message

/-- What becomes of a message that is put into a mailbox. -/
def delivery (r : Reduction M) (box : Array M) : Delivery :=
  if r.isCombining && !box.isEmpty then .combined else .stored

/-- Sends a message in superstep `t`, to be read in superstep `t + 1`, and says what has become of
    it. Nothing is sent to a node that there is not, nor into a mailbox that would have to grow and
    cannot; `grows` says which mailboxes can. A message that is reduced takes no more room. -/
def send [Message M] (grows : Mailboxes M → Nat → Bool) (r : Reduction M) (b : Mailboxes M)
    (t target : Nat) (message : M) : Mailboxes M × Except SendError Delivery :=
  match b.waiting? (t + 1) target with
  | none => (b, .error .unknownTarget)
  | some box =>
    let delivery := delivery r box
    if delivery = .stored && !grows b target then (b, .error (.allocation ⟨box.size + 1⟩))
    else (b.modify (t + 1) target (deliver r message), .ok delivery)

/-- Without a combiner a message is stored after those that wait. -/
theorem deliver_of_not_combining [Message M] {r : Reduction M} (h : r.isCombining = false)
    (message : M) (box : Array M) : deliver r message box = box.push message := by
  simp [deliver, h]

/-- The first message is stored whatever the reduction. -/
theorem deliver_empty [Message M] (r : Reduction M) (message : M) :
    deliver r message #[] = #[message] := by
  unfold deliver
  cases r.isCombining <;> rfl

end Mailboxes

end Superstep
