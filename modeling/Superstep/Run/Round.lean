import Superstep.Run.Worker

/-!
# Supersteps

In a superstep every worker goes through its active nodes, and the superstep is over when all are
done. The counts of the workers are added up. The first failure is kept; once there is one, no
worker picks up another node, and the superstep as a whole fails.

The workers are run one after the other here, in the order of their partitions.
-/

namespace Superstep

/-- Where a superstep stands between two workers. -/
structure Round (V M T : Type) where
  store : NodeStore V M
  tracker : T
  tally : Tally
  failure : Option RunError

namespace Round

variable {W V M T : Type}

/-- The next worker has its turn. A worker that fails adds nothing to the counts. -/
def turn [Message M] (job : Job W V M T) (t : Nat) (r : Round V M T) (w : Worker) : Round V M T :=
  match r with
  | ⟨store, tracker, tally, failure⟩ =>
    let (store, s) := w.process job t failure.isSome store tracker
    match s.failure with
    | none => ⟨store, s.tracker, tally.add s.out.tally, failure⟩
    | some e => ⟨store, s.tracker, tally, failure.or (some e)⟩

/-- Superstep `t` with the given workers. -/
def play [Message M] (job : Job W V M T) (workers : List Worker) (t : Nat) (store : NodeStore V M)
    (tracker : T) : Round V M T :=
  workers.foldl (turn job t) ⟨store, tracker, Tally.zero, none⟩

end Round

end Superstep
