import Superstep.Run.Error

/-!
# Configuration of a run

`Config` says how many workers a run has, how long it may take, how messages are combined, which
nodes are active in superstep 0, and how often progress is reported. `Config.check` tests what can
be tested without a graph; of several faults it reports the first in the order of the fields.
-/

namespace Superstep

/-- The nodes that are active in superstep 0. -/
inductive InitialActive where
  | all
  | nodes (ids : List NodeId)
deriving DecidableEq

/-- The configuration of a run. -/
structure Config where
  /-- The number of workers. Results do not depend on it. -/
  concurrency : Nat
  /-- The largest number of supersteps. -/
  maxIterations : Nat
  /-- How messages to one node are combined. -/
  combiner : Combiner
  initialActive : InitialActive
  /-- The number of nodes that a worker executes between two reports. -/
  progressBatchSize : Nat
deriving DecidableEq

namespace Config

/-- The configuration that is used for what is not given. -/
def default (concurrency : Nat) : Config where
  concurrency
  maxIterations := 20
  combiner := .none
  initialActive := .all
  progressBatchSize := 4096

/-- Tests a configuration without a graph. -/
def check (c : Config) : Except ConfigFault Unit :=
  if c.concurrency = 0 || c.concurrency > maxConcurrency then .error (.concurrency c.concurrency)
  else if c.maxIterations = 0 then .error .maxIterations
  else if c.progressBatchSize = 0 then .error .progressBatchSize
  else .ok ()

theorem check_eq_ok_iff {c : Config} :
    c.check = .ok () ↔
      0 < c.concurrency ∧ c.concurrency ≤ maxConcurrency ∧ 0 < c.maxIterations ∧
        0 < c.progressBatchSize := by
  unfold check
  repeat' split
  all_goals simp_all
  all_goals omega

end Config

end Superstep
