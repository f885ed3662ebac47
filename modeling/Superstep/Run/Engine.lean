import Superstep.Run.Cancellation
import Superstep.Run.Round

/-!
# Runs

`Run.new` accepts a graph, a configuration and a computation if they fit together; `Run.perform`
carries the run out. How a superstep is carried out is a parameter of the driver, so that a run may
be looked at under any interleaving of its workers (`Run.performBy`). A run goes through these
phases:

```text
initializing → running 0 → running 1 → … → converged
                                          | max_iterations_reached
                                          | cancelled
                                          | failed
```

Before each superstep three questions are asked, in this order: whether no node is active, whether
the largest number of supersteps has been reached, and whether the run has been cancelled. A run
without active nodes at its start converges without a worker.

What a run does is in its `RunReport`: how it ended, what its tracker has become, the notices it has
logged, and how often it has asked whether it is cancelled. A panic of the tracker outside of a
worker ends the run on the spot (`unwound`).
-/

namespace Superstep

/-- Why a run stopped. -/
inductive Termination where
  /-- No node was active any more. -/
  | converged
  | maxIterationsReached
  | cancelled
deriving DecidableEq

/-- The name of a termination. -/
def Termination.name : Termination → String
  | .converged => "converged"
  | .maxIterationsReached => "max_iterations_reached"
  | .cancelled => "cancelled"

/-- The phases of a run. -/
inductive Phase where
  | initializing
  | running (superstep : Nat)
  | finished (termination : Termination)
  | failed
deriving DecidableEq

/-- The name of a phase. -/
def Phase.name : Phase → String
  | .initializing => "initializing"
  | .running t => "running(" ++ Decimal.text t ++ ")"
  | .finished termination => termination.name
  | .failed => "failed"

/-- A line of the log of a run. -/
inductive Notice where
  | starting (combiner : String)
  | spawning (workers : Nat)
  | phase (previous next : Phase)
deriving DecidableEq

/-- Counts of a completed superstep. -/
structure SuperstepStats where
  superstep : Nat
  /-- Nodes executed in this superstep. -/
  activeNodes : Nat
  messagesSent : Nat
  messagesCombined : Nat
  /-- Nodes active in the following superstep. -/
  nextActiveNodes : Nat
deriving DecidableEq

/-- The result of a run that did not fail. -/
structure RunResult (V : Type) where
  values : PagedArray V
  termination : Termination
  supersteps : Array SuperstepStats

namespace RunResult

variable {V : Type}

/-- The number of completed supersteps. -/
def ranIterations (r : RunResult V) : Nat := r.supersteps.size

/-- Whether the run stopped because no node was active any more. -/
def didConverge (r : RunResult V) : Bool := r.termination = .converged

end RunResult

/-- How a run ends. -/
inductive RunEnding (V : Type) where
  | finished (result : RunResult V)
  | failed (error : RunError)
  /-- A panic outside of the workers. -/
  | unwound (payload : PanicPayload)

/-- What a run leaves behind. -/
structure RunReport (V T : Type) where
  ending : RunEnding V
  tracker : T
  notices : Array Notice
  polls : Nat

/-! ## Accepted runs -/

/-- Tests whether a run can be started. -/
def checkRun {W V M : Type} [Message M] (graph : Graph W) (config : Config)
    (computation : Computation W V M) : Except ConfigFault Unit := do
  config.check
  match config.initialActive with
  | .all => pure ()
  | .nodes ids =>
    match ids.find? (fun id => id.val ≥ graph.nodeCount) with
    | some id => throw (.initialNode id graph.nodeCount.toNat)
    | none => pure ()
  if computation.combiner.isNone && !Message.supports M config.combiner then
    throw (.combiner config.combiner)

/-- A run that can be started. -/
structure Run (W V M : Type) [Message M] where
  graph : Graph W
  config : Config
  computation : Computation W V M
  accepted : checkRun graph config computation = .ok ()

/-! ## The driver -/

/-- Where the driver of a run stands between two supersteps. -/
structure Driver (V M T : Type) where
  store : NodeStore V M
  tracker : T
  phase : Phase
  notices : Array Notice
  /-- Counts of the completed supersteps. The number of the next superstep is how many there are. -/
  supersteps : Array SuperstepStats
  activeNodes : Nat
  polls : Nat

/-- How the driver ends. -/
inductive DriverEnding where
  | finished (termination : Termination)
  | failed (error : RunError)
  | unwound (payload : PanicPayload)

namespace Driver

variable {W V M T : Type}

/-- Enters the next phase, and logs it. -/
def enter (d : Driver V M T) (next : Phase) : Driver V M T :=
  { d with phase := next, notices := d.notices.push (.phase d.phase next) }

/-- Reports to the tracker. -/
def report (job : Job W V M T) (d : Driver V M T) (r : Report) :
    Driver V M T × Option PanicPayload :=
  let (tracker, panic) := job.tracker.take r d.tracker
  ({ d with tracker }, panic)

/-- Carries out the next superstep by `play`. Its end is reported whether it has failed or not. -/
def superstep (job : Job W V M T) (play : Nat → NodeStore V M → T → Round V M T)
    (d : Driver V M T) : Driver V M T × Option DriverEnding :=
  let t := d.supersteps.size
  match (d.enter (.running t)).report job (.beginSubTask d.activeNodes) with
  | (d, some payload) => (d, some (.unwound payload))
  | (d, none) =>
    let round := play t d.store d.tracker
    let d := { d with store := round.store, tracker := round.tracker }
    match d.report job .endSubTask with
    | (d, some payload) => (d, some (.unwound payload))
    | (d, none) =>
      match round.failure with
      | some e => (d, some (.failed e))
      | none =>
        let stats : SuperstepStats :=
          ⟨t, d.activeNodes, round.tally.sent, round.tally.combined, round.tally.activated⟩
        ({ d with
            supersteps := d.supersteps.push stats
            activeNodes := round.tally.activated }, none)

/-- Carries out supersteps until the run ends; at most `remaining` more of them. -/
def drive (job : Job W V M T) (play : Nat → NodeStore V M → T → Round V M T)
    (flag : TerminationFlag) : Nat → Driver V M T → Driver V M T × DriverEnding
  | remaining, d =>
    if d.activeNodes = 0 then (d, .finished .converged)
    else
      match remaining with
      | 0 => (d, .finished .maxIterationsReached)
      | remaining + 1 =>
        let cancelled := flag.isCancelled d.polls
        let d := { d with polls := d.polls + 1 }
        if cancelled then (d, .finished .cancelled)
        else
          match d.superstep job play with
          | (d, some ending) => (d, ending)
          | (d, none) => drive job play flag remaining d

/-- Closes the run: a finished or failed run enters its last phase, an unwound one logs nothing. -/
def close (d : Driver V M T) : DriverEnding → RunReport V T
  | .finished termination =>
    let d := d.enter (.finished termination)
    ⟨.finished ⟨d.store.values, termination, d.supersteps⟩, d.tracker, d.notices, d.polls⟩
  | .failed e => ⟨.failed e, d.tracker, (d.enter .failed).notices, d.polls⟩
  | .unwound payload => ⟨.unwound payload, d.tracker, d.notices, d.polls⟩

end Driver

namespace Run

variable {W V M T : Type}

/-- Accepts a run if graph, configuration and computation fit together. -/
def new [Message M] (graph : Graph W) (config : Config) (computation : Computation W V M) :
    Except RunError (Run W V M) :=
  match h : checkRun graph config computation with
  | .ok () => .ok ⟨graph, config, computation, h⟩
  | .error fault => .error (.configuration fault)

variable [Message M]

/-- The number of nodes. -/
def nodeCount (r : Run W V M) : Nat := r.graph.nodeCount.toNat

/-- The reduction in force. -/
def reduction (r : Run W V M) : Reduction M :=
  .choose r.computation.combiner r.config.combiner

/-- What stays the same during the run. -/
def job (r : Run W V M) (tracker : Tracker T) : Job W V M T :=
  ⟨r.graph, r.computation, r.reduction, r.config.progressBatchSize, tracker⟩

/-- The initial values. -/
def initialValues [Memory.Allocator] (r : Run W V M) : Except RunError (PagedArray V) :=
  match PagedArray.new r.nodeCount PagedArray.defaultShift
      (fun i => r.computation.init r.graph (.ofIndex i)) with
  | .ok values => .ok values
  | .error e => .error (e.toRunError "node values")

/-- The nodes active in superstep 0. -/
def initialActive [Memory.Allocator] (r : Run W V M) : Except RunError ActiveSet :=
  match ActiveSet.new r.nodeCount with
  | .error e => .error (e.toRunError "active set")
  | .ok active =>
    match r.config.initialActive with
    | .all => .ok (active.setCurrent 0 (active.current 0).fill)
    | .nodes ids =>
      .ok (active.setCurrent 0 (ids.foldl (fun s id => s.insert id.index) (active.current 0)))

/-- Empty mailboxes. -/
def initialMail [Memory.Allocator] (r : Run W V M) : Except RunError (Mailboxes M) :=
  match Mailboxes.new r.nodeCount with
  | .ok mail => .ok mail
  | .error e => .error (e.toRunError "message slots")

/-- The workers of the run, each with its view of the values. -/
def workers (r : Run W V M) (values : PagedArray V) : List Worker :=
  let partitions := Partition.divide r.nodeCount r.config.concurrency
  let views := values.split (partitions.map fun p => (p.start, p.stop))
  partitions.zipWith Worker.mk views

/-- A report of a run that ends before it has a driver. -/
def stopEarly (ending : RunEnding V) (tracker : T) (notices : Array Notice) (last : Option Phase) :
    RunReport V T :=
  let notices :=
    match last with
    | some phase => notices.push (.phase .initializing phase)
    | none => notices
  ⟨ending, tracker, notices, 0⟩

/-- What the run needs before its first superstep: a driver and the workers. A run that fails or
    converges without them ends here. -/
def prepare [Memory.Allocator] (r : Run W V M) (tracker : Tracker T) (state : T) :
    Except (RunReport V T) (Driver V M T × List Worker) :=
  let notices := #[Notice.starting r.reduction.name]
  match tracker.take .beginTask state with
  | (state, some payload) => .error (stopEarly (.unwound payload) state notices none)
  | (state, none) =>
    match r.initialValues, r.initialActive with
    | .error e, _ => .error (stopEarly (.failed e) state notices (some .failed))
    | .ok _, .error e => .error (stopEarly (.failed e) state notices (some .failed))
    | .ok values, .ok active =>
      let activeNodes := (active.current 0).count
      if activeNodes = 0 then
        .error (stopEarly (.finished ⟨values, .converged, #[]⟩) state notices
          (some (.finished .converged)))
      else
        match r.initialMail with
        | .error e => .error (stopEarly (.failed e) state notices (some .failed))
        | .ok mail =>
          let workers := r.workers values
          .ok (
            { store := ⟨values, mail, active⟩
              tracker := state
              phase := .initializing
              notices := notices.push (.spawning workers.length)
              supersteps := #[]
              activeNodes
              polls := 0 },
            workers)

/-- Carries out the run, with its supersteps carried out by `play`. -/
def performBy [Memory.Allocator] (r : Run W V M) (tracker : Tracker T)
    (play : List Worker → Nat → NodeStore V M → T → Round V M T) (state : T)
    (flag : TerminationFlag) : RunReport V T :=
  match r.prepare tracker state with
  | .error report => report
  | .ok (driver, workers) =>
    let (driver, ending) :=
      driver.drive (r.job tracker) (play workers) flag r.config.maxIterations
    driver.close ending

/-- Carries out the run, with its workers one after the other. -/
def perform [Memory.Allocator] (r : Run W V M) (tracker : Tracker T) (state : T)
    (flag : TerminationFlag) :
    RunReport V T :=
  r.performBy tracker (Round.play (r.job tracker)) state flag

end Run

end Superstep
