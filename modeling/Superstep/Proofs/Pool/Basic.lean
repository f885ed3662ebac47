import Superstep.Proofs.Crew.Basic
import Superstep.Proofs.Pool.Barrier

/-!
# The driver and its workers

A run has one driver and some workers, which act at the same time. They come together at two
barriers: the driver opens a superstep together with the workers at the first one, and waits for
them at the second one. In between it is the turn of the workers (`Worker.act`); outside of a
superstep they wait for the next command, and the driver adds up what they have counted. When the
driver ends, in whatever way, it tells the workers to stop and comes to the first barrier once more,
so that they are not left there.

`Pool` is what all of this stores, with where the driver (`Driver.Place`) and each worker
(`Worker.Place`) stand. Everything is done by indivisible actions: one operation on a barrier, a
cell, a counter, the recorded failure, or the storage, one call of the tracker or of the flag. The
tracker may panic in any call, and so may the flag.

* `Pool.drive`, `Pool.work`: the next action of the driver, and of a worker.
* `Pool.Step`: the driver or some worker takes its next action.
* `Pool.Reaches`: what can become of a pool.
-/

namespace Superstep

/-! ## Counters -/

/-- What is counted in a superstep. -/
inductive Counter where
  | processed
  | sent
  | combined
  | activated
deriving DecidableEq

/-- The order in which the counters are reset, added to and read. -/
def Counter.all : List Counter := [.processed, .sent, .combined, .activated]

theorem Counter.mem_all (c : Counter) : c ∈ all := by cases c <;> decide

namespace Tally

def get (tally : Tally) : Counter → Nat
  | .processed => tally.processed
  | .sent => tally.sent
  | .combined => tally.combined
  | .activated => tally.activated

def ofCounters (counters : Counter → Nat) : Tally :=
  ⟨counters .processed, counters .sent, counters .combined, counters .activated⟩

@[simp] theorem ofCounters_get (tally : Tally) : ofCounters tally.get = tally := rfl

end Tally

/-! ## Where the parties stand -/

/-- Where a worker stands. -/
inductive Worker.Place where
  /-- The worker is about to wait for work. -/
  | idle
  | atStart (ticket : Nat)
  /-- The worker is about to see whether it shall stop. -/
  | looking
  /-- The worker is about to see which superstep is to be carried out. -/
  | fetching
  | working
  /-- The worker has still to add what it has counted to the counters of `rest`. -/
  | adding (rest : List Counter)
  | atFinish (ticket : Nat)
  | gone

/-- Where the driver stands. -/
inductive Driver.Place where
  /-- The driver is at the head of its loop. -/
  | deciding
  | polling
  /-- The tracker has still to be told of the superstep. -/
  | beginning
  /-- The counters of `rest` have still to be reset; then the number of the superstep is stored. -/
  | resetting (rest : List Counter)
  /-- The driver is about to come to the first barrier. -/
  | calling
  | atStart (ticket : Nat)
  /-- The driver is about to come to the second barrier. -/
  | awaiting
  | atFinish (ticket : Nat)
  /-- The recorded failure has still to be taken. -/
  | taking
  /-- The counters of `rest` have still to be read; `found` is what the others have said. -/
  | reading (rest : List Counter) (found : Counter → Nat)
  /-- The superstep is over. The tracker has still to be told. -/
  | ending (outcome : Except RunError Tally)
  /-- The workers have still to be told to stop. -/
  | closing (result : DriverEnding)
  /-- The driver is about to come to the first barrier for the last time. -/
  | releasing (result : DriverEnding)
  | atLast (result : DriverEnding) (ticket : Nat)
  /-- The driver waits for the workers to be gone. -/
  | joining (result : DriverEnding)
  | left (result : DriverEnding)

/-- A worker that is gone has passed the first barrier and does not come to the second one. -/
def Worker.Place.station : Worker.Place → Station
  | .idle => .before .start
  | .atStart ticket => .waiting .start ticket
  | .looking | .fetching | .working | .adding _ | .gone => .before .finish
  | .atFinish ticket => .waiting .finish ticket

/-- So has a driver that waits for the workers to be gone. -/
def Driver.Place.station : Driver.Place → Station
  | .deciding | .polling | .beginning | .resetting _ | .calling | .taking | .reading _ _
  | .ending _ | .closing _ | .releasing _ => .before .start
  | .atStart ticket | .atLast _ ticket => .waiting .start ticket
  | .awaiting | .joining _ | .left _ => .before .finish
  | .atFinish ticket => .waiting .finish ticket

/-- Whether the driver has told the workers to stop. -/
def Driver.Place.closed : Driver.Place → Bool
  | .releasing _ | .atLast _ _ | .joining _ | .left _ => true
  | _ => false

def Worker.Place.isGone : Worker.Place → Bool
  | .gone => true
  | _ => false

/-! ## What the driver does by itself -/

namespace Driver

variable {W V M T : Type}

/-- Enters the next superstep and tells the tracker. -/
def beginSuperstep (job : Job W V M T) (d : Driver V M T) : Driver V M T × Option PanicPayload :=
  (d.enter (.running d.supersteps.size)).report job (.beginSubTask d.activeNodes)

/-- Tells the tracker that the superstep is over, and takes in what has come of it. -/
def endSuperstep (job : Job W V M T) (d : Driver V M T) (outcome : Except RunError Tally) :
    Driver V M T × Option DriverEnding :=
  match d.report job .endSubTask with
  | (d, some payload) => (d, some (.unwound payload))
  | (d, none) =>
    match outcome with
    | .error e => (d, some (.failed e))
    | .ok tally =>
      ({ d with
          supersteps := d.supersteps.push
            ⟨d.supersteps.size, d.activeNodes, tally.sent, tally.combined, tally.activated⟩
          activeNodes := tally.activated }, none)

/-- The driver with the storage and the tracker as others have left them. -/
def withStore (d : Driver V M T) (store : NodeStore V M) (tracker : T) : Driver V M T :=
  { d with store, tracker }

end Driver

/-! ## The pool -/

/-- What a pool is to do. -/
structure Plan (W V M T : Type) where
  job : Job W V M T
  workers : List Worker
  limit : Nat
  /-- What a poll of the flag says, by the number of the poll. -/
  poll : Nat → Except PanicPayload Bool

/-- A driver and its workers. -/
structure Pool (V M T : Type) where
  barriers : Gate → Barrier
  /-- The number of the superstep that is to be carried out. -/
  superstep : Nat
  /-- Whether the workers shall stop. -/
  shutdown : Bool
  aborted : Bool
  failure : Option RunError
  counters : Counter → Nat
  /-- The driver. Its storage and its tracker are shared by all. -/
  driver : Driver V M T
  place : Driver.Place
  places : Nat → Worker.Place
  /-- The number of the superstep that a worker carries out, or has carried out last. -/
  turns : Nat → Nat
  /-- What a worker has to itself in that superstep. -/
  hands : Nat → Hand V M
  /-- How often the workers have been told to stop. -/
  shutdowns : Nat

namespace Pool

variable {W V M T : Type}

/-- A pool before the first superstep of its driver. -/
def start (d : Driver V M T) : Pool V M T :=
  ⟨fun _ => .new, 0, false, false, none, fun _ => 0, d, .deciding, fun _ => .idle, fun _ => 0,
    fun _ => .start, 0⟩

/-- What the workers share in a superstep. -/
def shared (x : Pool V M T) : Shared V M T :=
  ⟨x.driver.store, x.driver.tracker, x.aborted, x.failure⟩

def putShared (x : Pool V M T) (s : Shared V M T) : Pool V M T :=
  { x with
    driver := x.driver.withStore s.store s.tracker
    aborted := s.aborted
    failure := s.failure }

/-- Some party comes to a barrier. -/
def come (x : Pool V M T) (parties : Nat) (gate : Gate) : Pool V M T :=
  { x with barriers := Function.update x.barriers gate ((x.barriers gate).arrive parties) }

/-- The driver goes to another place. -/
def drives (x : Pool V M T) (place : Driver.Place) : Pool V M T := { x with place }

/-- Worker `k` goes to another place. -/
def moves (x : Pool V M T) (k : Nat) (place : Worker.Place) : Pool V M T :=
  { x with places := Function.update x.places k place }

@[simp] theorem places_moves_self (x : Pool V M T) (k : Nat) (place : Worker.Place) :
    (x.moves k place).places k = place := Function.update_self ..

theorem places_moves_of_ne {x : Pool V M T} {j k : Nat} (h : j ≠ k) (place : Worker.Place) :
    (x.moves k place).places j = x.places j := Function.update_of_ne h ..

/-- The next action of the driver, unless it is held up or has left. -/
def drive (plan : Plan W V M T) (x : Pool V M T) : Option (Pool V M T) :=
  let parties := plan.workers.length + 1
  match x.place with
  | .deciding =>
    if x.driver.activeNodes = 0 then some (x.drives (.closing (.finished .converged)))
    else if plan.limit ≤ x.driver.supersteps.size then
      some (x.drives (.closing (.finished .maxIterationsReached)))
    else some (x.drives .polling)
  | .polling =>
    let driver := { x.driver with polls := x.driver.polls + 1 }
    match plan.poll x.driver.polls with
    | .error payload => some { x with driver, place := .closing (.unwound payload) }
    | .ok true => some { x with driver, place := .closing (.finished .cancelled) }
    | .ok false => some { x with driver, place := .beginning }
  | .beginning =>
    match x.driver.beginSuperstep plan.job with
    | (driver, some payload) => some { x with driver, place := .closing (.unwound payload) }
    | (driver, none) => some { x with driver, place := .resetting Counter.all }
  | .resetting (c :: rest) =>
    some { x with counters := Function.update x.counters c 0, place := .resetting rest }
  | .resetting [] => some { x with superstep := x.driver.supersteps.size, place := .calling }
  | .calling => some ((x.come parties .start).drives (.atStart (x.barriers .start).generation))
  | .atStart ticket =>
    if (x.barriers .start).generation = ticket then none else some (x.drives .awaiting)
  | .awaiting => some ((x.come parties .finish).drives (.atFinish (x.barriers .finish).generation))
  | .atFinish ticket =>
    if (x.barriers .finish).generation = ticket then none else some (x.drives .taking)
  | .taking =>
    match x.failure with
    | some e => some { x with failure := none, place := .ending (.error e) }
    | none => some (x.drives (.reading Counter.all fun _ => 0))
  | .reading (c :: rest) found =>
    some (x.drives (.reading rest (Function.update found c (x.counters c))))
  | .reading [] found => some (x.drives (.ending (.ok (.ofCounters found))))
  | .ending outcome =>
    match x.driver.endSuperstep plan.job outcome with
    | (driver, some result) => some { x with driver, place := .closing result }
    | (driver, none) => some { x with driver, place := .deciding }
  | .closing result =>
    some { x with shutdown := true, shutdowns := x.shutdowns + 1, place := .releasing result }
  | .releasing result =>
    some ((x.come parties .start).drives (.atLast result (x.barriers .start).generation))
  | .atLast result ticket =>
    if (x.barriers .start).generation = ticket then none else some (x.drives (.joining result))
  | .joining result =>
    if (List.range plan.workers.length).all fun k => (x.places k).isGone then
      some (x.drives (.left result))
    else none
  | .left _ => none

/-- The next action of worker `k`, unless it is held up or gone. -/
def work [Message M] (plan : Plan W V M T) (x : Pool V M T) (k : Nat) (w : Worker) :
    Option (Pool V M T) :=
  let parties := plan.workers.length + 1
  match x.places k with
  | .idle => some ((x.come parties .start).moves k (.atStart (x.barriers .start).generation))
  | .atStart ticket =>
    if (x.barriers .start).generation = ticket then none else some (x.moves k .looking)
  | .looking => some (x.moves k (if x.shutdown then .gone else .fetching))
  | .fetching =>
    some { x.moves k .working with
      turns := Function.update x.turns k x.superstep
      hands := Function.update x.hands k .start }
  | .working =>
    match w.act plan.job (x.turns k) (x.hands k) x.shared with
    | some (h, s) => some { x.putShared s with hands := Function.update x.hands k h }
    | none => some (x.moves k (.adding Counter.all))
  | .adding (c :: rest) =>
    some { x.moves k (.adding rest) with
      counters := Function.update x.counters c (x.counters c + (x.hands k).counts.get c) }
  | .adding [] =>
    some ((x.come parties .finish).moves k (.atFinish (x.barriers .finish).generation))
  | .atFinish ticket =>
    if (x.barriers .finish).generation = ticket then none else some (x.moves k .idle)
  | .gone => none

/-- The driver or some worker takes its next action. -/
inductive Step [Message M] (plan : Plan W V M T) : Pool V M T → Pool V M T → Prop
  | driver {x x' : Pool V M T} : x.drive plan = some x' → Step plan x x'
  | worker {x x' : Pool V M T} {k : Nat} {w : Worker} :
    plan.workers[k]? = some w → x.work plan k w = some x' → Step plan x x'

/-- What can become of the pool of a driver. -/
def Reaches [Message M] (plan : Plan W V M T) (d : Driver V M T) (x : Pool V M T) : Prop :=
  Relation.ReflTransGen (Step plan) (.start d) x

/-- The driver has left, and all workers are gone. -/
def Over (plan : Plan W V M T) (x : Pool V M T) : Prop :=
  (∃ result, x.place = .left result) ∧ ∀ k < plan.workers.length, x.places k = .gone

end Pool

end Superstep
