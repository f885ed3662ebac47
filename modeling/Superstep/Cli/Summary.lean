import Superstep.Cli.Command
import Superstep.Decimal.Scientific
import Superstep.Json.Printer
import Superstep.Run.Engine

/-!
# Summaries

The summary of a run as `run` prints it: how the run went, and the value of every node. It is
written as JSON, where an infinite value becomes null.
-/

namespace Superstep.Cli

/-- The values of all nodes. -/
inductive NodeValues where
  | labels (values : List Nat)
  | numbers (values : List Float)
deriving DecidableEq

/-- What `run` prints. -/
structure Summary where
  algorithm : Algorithm
  ranIterations : Nat
  didConverge : Bool
  termination : Termination
  supersteps : List SuperstepStats
  values : NodeValues
deriving DecidableEq

namespace Summary

/-- The summary of a result. -/
def ofResult {V : Type} (algorithm : Algorithm) (values : List V → NodeValues)
    (result : RunResult V) : Summary where
  algorithm
  ranIterations := result.ranIterations
  didConverge := result.didConverge
  termination := result.termination
  supersteps := result.supersteps.toList
  values := values result.values.toList

/-- A number as JSON. -/
def number (x : Float) : Json :=
  if x.isFinite then .number (String.ofList (Decimal.scientificDigits x)) else .null

/-- The values of all nodes as JSON. -/
def valuesToJson : NodeValues → Json
  | .labels values => .array (values.map Json.ofNat)
  | .numbers values => .array (values.map number)

/-- The counts of a superstep as JSON. -/
def superstepToJson (s : SuperstepStats) : Json :=
  .object
    [("superstep", .ofNat s.superstep), ("active_nodes", .ofNat s.activeNodes),
      ("messages_sent", .ofNat s.messagesSent), ("messages_combined", .ofNat s.messagesCombined),
      ("next_active_nodes", .ofNat s.nextActiveNodes)]

/-- A summary as JSON. -/
def toJson (r : Summary) : Json :=
  .object
    [("algorithm", .ofString r.algorithm.name), ("ran_iterations", .ofNat r.ranIterations),
      ("did_converge", .boolean r.didConverge), ("termination", .ofString r.termination.name),
      ("supersteps", .array (r.supersteps.map superstepToJson)), ("values", valuesToJson r.values)]

end Summary

end Superstep.Cli
