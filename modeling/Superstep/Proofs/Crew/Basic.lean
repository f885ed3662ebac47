import Mathlib.Logic.Function.Basic
import Mathlib.Logic.Relation
import Superstep.Run.Engine

/-!
# Supersteps whose workers act at the same time

`Round.play` runs the workers of a superstep one after the other. Here they are run at the same
time: a superstep is an interleaving of the indivisible actions of its workers (`Worker.act`), each
of which is made of the operations that a worker by itself is made of. Sending one message, that is,
putting it into the mailbox of its target and waking the target up, is one action; so is taking a
node up (its value, its messages and what its step makes of them are of no concern to other
workers), counting it, a report to the tracker, clearing the worker's active nodes, raising the
flag that tells the others to stop, and recording a failure.

* `Crew.Step`: some worker takes its next action.
* `Interleaving`: a superstep from its start to where every worker is done.
* `Schedule`: a choice of an interleaving for every superstep. `Run.under` is a run in which the
  supersteps are carried out by a schedule.
-/

namespace Superstep

/-! ## What a step sends, one action at a time -/

/-- One thing that a step does to its outbox. -/
inductive Attempt (M : Type) where
  | message (target : NodeId) (message : M)
  /-- The relationships of the sender cannot be read any further; `unread` if none has been read. -/
  | breakOff (fault : ReadFault) (unread : Bool)

/-- What becomes of something that a step sends: a copy for every relationship that can be read. -/
def Send.attempts {W M : Type} (g : Graph W) (node : NodeId) : Send M → List (Attempt M)
  | .to target message => [.message target message]
  | .toNeighbors message =>
    (g.neighbors node).map (fun target => .message target message) ++
      (g.fault? node).toList.map fun fault => .breakOff fault (g.neighbors node).isEmpty

namespace Outbox

variable {M : Type} [Message M]

/-- Carries out one attempt. A walk over the relationships has stopped before it meets a fault if
    one of its messages could not be sent. -/
def attempt (c : Channel M) (o : Outbox M) : Attempt M → Outbox M
  | .message target message => o.sendTo c target message
  | .breakOff fault unread =>
    if unread || o.failure.isNone then o.fail (.unreadable fault) else o

end Outbox

/-! ## One worker -/

/-- Where a worker stands in a superstep. -/
inductive Stage (V M : Type) where
  /-- The worker has not looked for its active nodes. -/
  | waiting
  /-- No node is being executed; `nodes` are still to come. -/
  | between (nodes : List Nat)
  /-- Node `i` has been executed; `attempts` are still to be made, and `lost` is what has become of
      those before. -/
  | sending (i : Nat) (outcome : Outcome V M) (lost : Option SendFailure)
      (attempts : List (Attempt M)) (nodes : List Nat)
  /-- Node `i` has been counted. A full batch is still to be reported. -/
  | counted (i : Nat) (nodes : List Nat)
  /-- What is left is still to be reported. -/
  | reporting
  /-- The active nodes of the worker are still to be cleared. -/
  | clearing
  /-- The other workers do not yet know of the failure. -/
  | failing (error : RunError)
  /-- The failure is still to be recorded. -/
  | recording (error : RunError)
  | done (failed : Bool)

/-- What a worker has to itself in a superstep. -/
structure Hand (V M : Type) where
  stage : Stage V M
  tally : Tally
  unreported : Nat

/-- What the workers of a superstep share. -/
structure Shared (V M T : Type) where
  store : NodeStore V M
  tracker : T
  /-- Whether a worker has failed, so that the others stop. -/
  aborted : Bool
  /-- The first failure that has been recorded. -/
  failure : Option RunError

namespace Hand

variable {V M : Type}

/-- A worker at the start of a superstep. -/
def start : Hand V M := ⟨.waiting, Tally.zero, 0⟩

/-- What a worker adds to the counts of the superstep. A worker that fails adds nothing. -/
def counts (h : Hand V M) : Tally :=
  match h.stage with
  | .done true => Tally.zero
  | _ => h.tally

end Hand

namespace Shared

variable {V M T : Type}

/-- What all share at the start of a superstep. -/
def start (store : NodeStore V M) (tracker : T) : Shared V M T := ⟨store, tracker, false, none⟩

/-- The outbox of a worker: the mailboxes and the nodes of the next superstep with its counts. -/
def outbox (s : Shared V M T) (t : Nat) (tally : Tally) (lost : Option SendFailure) : Outbox M :=
  ⟨s.store.mail, s.store.active.next t, tally, lost⟩

/-- A worker as it looks when it is by itself. -/
def sweep (s : Shared V M T) (t : Nat) (h : Hand V M) : Sweep V M T :=
  ⟨s.store.values, s.outbox t h.tally none, s.tracker, h.unreported, none⟩

/-- Takes back an outbox. -/
def putOutbox (s : Shared V M T) (t : Nat) (o : Outbox M) : Shared V M T :=
  { s with store := { s.store with mail := o.mail, active := s.store.active.setNext t o.next } }

/-- Takes back what a worker has done by itself. Its failure, if it has failed, is still to be
    made known. -/
def resume (s : Shared V M T) (t : Nat) (x : Sweep V M T) (stage : Stage V M) :
    Hand V M × Shared V M T :=
  (⟨match x.failure with
      | none => stage
      | some e => .failing e, x.out.tally, x.unreported⟩,
    { s.putOutbox t x.out with tracker := x.tracker })

end Shared

namespace Worker

variable {W V M T : Type}

/-- Takes up node `i`: its step is carried out on its value and its messages, which are discarded.
    What it sends is still to be sent. -/
def pick (job : Job W V M T) (t : Nat) (w : Worker) (h : Hand V M) (s : Shared V M T) (i : Nat)
    (nodes : List Nat) : Hand V M × Shared V M T :=
  match s.store.values.viewGet? w.view i, s.store.mail.waiting? t i with
  | some value, some messages =>
    let node := NodeId.ofIndex i
    let outcome := job.computation.step ⟨job.graph, node, t, value, messages.toList⟩
    let attempts := outcome.sends.flatMap (Send.attempts job.graph node)
    ({ h with stage := .sending i outcome none attempts nodes },
      { s with store := { s.store with
          values := s.store.values.viewSet w.view i outcome.value
          mail := s.store.mail.discard t i } })
  | _, _ => ({ h with stage := .between nodes }, s)

/-- The next action of a worker, if it is not done. -/
def act [Message M] (job : Job W V M T) (t : Nat) (w : Worker) (h : Hand V M) (s : Shared V M T) :
    Option (Hand V M × Shared V M T) :=
  match h.stage with
  | .waiting => some ({ h with stage := .between (w.activeNodes (s.store.active.current t)) }, s)
  | .between [] => some ({ h with stage := .reporting }, s)
  | .between (i :: nodes) =>
    if s.aborted then some ({ h with stage := .reporting }, s) else some (w.pick job t h s i nodes)
  | .sending i outcome lost (a :: attempts) nodes =>
    let o := (s.outbox t h.tally lost).attempt (job.channel t) a
    some (⟨.sending i outcome o.failure attempts nodes, o.tally, h.unreported⟩, s.putOutbox t o)
  | .sending i outcome lost [] nodes =>
    match failureOf? (.ofIndex i) t job.graph.nodeCount outcome.failure lost with
    | some e => some ({ h with stage := .failing e }, s)
    | none => some (s.resume t (settle (s.sweep t h) i outcome.halt) (.counted i nodes))
  | .counted i nodes =>
    some (s.resume t (reportBatch job t (.ofIndex i) (s.sweep t h)) (.between nodes))
  | .reporting => some (s.resume t (reportRest job (s.sweep t h)) .clearing)
  | .clearing =>
    let current := (s.store.active.current t).clear w.partition.start w.partition.stop
    some ({ h with stage := .done false },
      { s with store := { s.store with active := s.store.active.setCurrent t current.1 } })
  | .failing e => some ({ h with stage := .recording e }, { s with aborted := true })
  | .recording e =>
    some ({ h with stage := .done true }, { s with failure := s.failure.or (some e) })
  | .done _ => none

/-- The actions of a worker, one by one. -/
inductive Acts [Message M] (job : Job W V M T) (t : Nat) (w : Worker) (h : Hand V M)
    (s : Shared V M T) : Hand V M → Shared V M T → Prop
  | look : h.stage = .waiting →
      Acts job t w h s { h with stage := .between (w.activeNodes (s.store.active.current t)) } s
  | stop {nodes} : h.stage = .between nodes → nodes = [] ∨ s.aborted = true →
      Acts job t w h s { h with stage := .reporting } s
  | pick {i nodes h' s'} : h.stage = .between (i :: nodes) → ¬ s.aborted = true →
      w.pick job t h s i nodes = (h', s') → Acts job t w h s h' s'
  | attempt {i outcome lost a rest nodes o} : h.stage = .sending i outcome lost (a :: rest) nodes →
      (s.outbox t h.tally lost).attempt (job.channel t) a = o →
      Acts job t w h s ⟨.sending i outcome o.failure rest nodes, o.tally, h.unreported⟩
        (s.putOutbox t o)
  | fail {i outcome lost nodes e} : h.stage = .sending i outcome lost [] nodes →
      failureOf? (.ofIndex i) t job.graph.nodeCount outcome.failure lost = some e →
      Acts job t w h s { h with stage := .failing e } s
  | count {i outcome lost nodes h' s'} : h.stage = .sending i outcome lost [] nodes →
      failureOf? (.ofIndex i) t job.graph.nodeCount outcome.failure lost = none →
      s.resume t (settle (s.sweep t h) i outcome.halt) (.counted i nodes) = (h', s') →
      Acts job t w h s h' s'
  | batch {i nodes h' s'} : h.stage = .counted i nodes →
      s.resume t (reportBatch job t (.ofIndex i) (s.sweep t h)) (.between nodes) = (h', s') →
      Acts job t w h s h' s'
  | rest {h' s'} : h.stage = .reporting →
      s.resume t (reportRest job (s.sweep t h)) .clearing = (h', s') → Acts job t w h s h' s'
  | clear {b} : h.stage = .clearing →
      ((s.store.active.current t).clear w.partition.start w.partition.stop).1 = b →
      Acts job t w h s { h with stage := .done false }
        { s with store := { s.store with active := s.store.active.setCurrent t b } }
  | abort {e} : h.stage = .failing e →
      Acts job t w h s { h with stage := .recording e } { s with aborted := true }
  | record {e} : h.stage = .recording e →
      Acts job t w h s { h with stage := .done true } { s with failure := s.failure.or (some e) }

/-- There are no other actions. -/
theorem acts_of_act [Message M] {job : Job W V M T} {t : Nat} {w : Worker} {h h' : Hand V M}
    {s s' : Shared V M T} (hact : w.act job t h s = some (h', s')) : Acts job t w h s h' s' := by
  unfold act at hact
  cases hstage : h.stage with
  | waiting =>
    rw [hstage] at hact
    cases hact
    exact .look hstage
  | between nodes =>
    rw [hstage] at hact
    cases nodes with
    | nil =>
      cases hact
      exact .stop hstage (.inl rfl)
    | cons i nodes =>
      simp only at hact
      split at hact
      · next haborted =>
        cases hact
        exact .stop hstage (.inr haborted)
      · next haborted => exact .pick hstage haborted (Option.some.inj hact)
  | sending i outcome lost rest nodes =>
    rw [hstage] at hact
    cases rest with
    | cons a rest =>
      cases hact
      exact .attempt hstage rfl
    | nil =>
      simp only at hact
      split at hact
      · next hfail =>
        cases hact
        exact .fail hstage hfail
      · next hfail => exact .count hstage hfail (Option.some.inj hact)
  | counted i nodes =>
    rw [hstage] at hact
    exact .batch hstage (Option.some.inj hact)
  | reporting =>
    rw [hstage] at hact
    exact .rest hstage (Option.some.inj hact)
  | clearing =>
    rw [hstage] at hact
    cases hact
    exact .clear hstage rfl
  | failing e =>
    rw [hstage] at hact
    cases hact
    exact .abort hstage
  | recording e =>
    rw [hstage] at hact
    cases hact
    exact .record hstage
  | done failed =>
    rw [hstage] at hact
    cases hact

end Worker

/-! ## All workers -/

/-- The workers of a superstep, and what they share. -/
structure Crew (V M T : Type) where
  hands : Nat → Hand V M
  shared : Shared V M T

namespace Crew

variable {W V M T : Type}

/-- The start of a superstep. -/
def start (store : NodeStore V M) (tracker : T) : Crew V M T :=
  ⟨fun _ => .start, .start store tracker⟩

/-- Some worker takes its next action. -/
inductive Step [Message M] (job : Job W V M T) (t : Nat) (workers : List Worker) :
    Crew V M T → Crew V M T → Prop
  | act {c : Crew V M T} {k : Nat} {w : Worker} {h : Hand V M} {s : Shared V M T} :
    workers[k]? = some w → w.act job t (c.hands k) c.shared = some (h, s) →
      Step job t workers c ⟨Function.update c.hands k h, s⟩

/-- Every worker is done. -/
def Finished (workers : List Worker) (c : Crew V M T) : Prop :=
  ∀ k < workers.length, ∃ failed, (c.hands k).stage = .done failed

/-- The counts of the first `count` workers. -/
def counts (c : Crew V M T) (count : Nat) : Tally :=
  (List.range count).foldl (fun total k => total.add (c.hands k).counts) Tally.zero

/-- What is left of a superstep when every worker is done. -/
def round (workers : List Worker) (c : Crew V M T) : Round V M T :=
  ⟨c.shared.store, c.shared.tracker, c.counts workers.length, c.shared.failure⟩

theorem counts_succ (c : Crew V M T) (n : Nat) :
    c.counts (n + 1) = (c.counts n).add (c.hands n).counts := by
  unfold counts
  rw [List.range_succ, List.foldl_append]
  rfl

theorem counts_congr {c c' : Crew V M T} {n : Nat} (h : ∀ k < n, c.hands k = c'.hands k) :
    c.counts n = c'.counts n := by
  induction n with
  | zero => rfl
  | succ n ih =>
    rw [counts_succ, counts_succ, h n (Nat.lt_succ_self n),
      ih fun k hk => h k (Nat.lt_succ_of_lt hk)]

end Crew

section

variable {W V M T : Type} [Message M]

/-- The result of a superstep with some interleaving of the actions of its workers. -/
def Interleaving (job : Job W V M T) (t : Nat) (workers : List Worker) (store : NodeStore V M)
    (tracker : T) (result : Round V M T) : Prop :=
  ∃ c, Relation.ReflTransGen (Crew.Step job t workers) (.start store tracker) c ∧
    c.Finished workers ∧ result = c.round workers

/-- A choice of an interleaving for every superstep. -/
structure Schedule (job : Job W V M T) where
  play : List Worker → Nat → NodeStore V M → T → Round V M T
  interleaving : ∀ workers t store tracker,
    Interleaving job t workers store tracker (play workers t store tracker)

/-- A run whose supersteps are carried out by a schedule. -/
def Run.under [Memory.Allocator] {r : Run W V M} {tracker : Tracker T}
    (schedule : Schedule (r.job tracker)) (state : T) (flag : TerminationFlag) : RunReport V T :=
  r.performBy tracker schedule.play state flag

end

end Superstep
