import Superstep.Message.Payload
import Superstep.Run.Computation

/-!
# Shortest paths

The source starts at distance zero and all other nodes at infinity. A node that hears of a shorter
distance takes it over and offers each neighbour that distance plus the weight of the relationship;
the source does so at first. Then the node sleeps. The combiner to run it with is `min`.

The type of distances is a parameter: the program computes with double-precision numbers.
-/

namespace Superstep

/-- Distances to which weights can be added. -/
class Distance (D W : Type) where
  zero : D
  infinity : D
  add : D → W → D
  less : D → D → Bool
  smaller : D → D → D

instance : Distance Float Float where
  zero := 0.0
  infinity := 1.0 / 0.0
  add d w := d + w
  less a b := a < b
  smaller := Float.smaller

namespace ShortestPaths

variable {W D : Type} [Distance D W]

/-- The shortest of some distances. -/
def shortest (distances : List D) : D := distances.foldl (Distance.smaller W) (Distance.infinity W)

/-- The offers that a node at the given distance makes to its neighbours. -/
def offers (view : NodeView W D D) (distance : D) : List (Send D) :=
  (view.graph.relationships view.node).map fun (target, weight) =>
    .to target (Distance.add distance weight)

/-- The step of a node. -/
def step (source : NodeId) (view : NodeView W D D) : Outcome D D :=
  let candidate : D := shortest (W := W) view.messages
  let improved := Distance.less W candidate view.value
  let distance := if improved then candidate else view.value
  if improved || (view.isInitial && view.node = source) then
    ⟨distance, offers view distance, true, view.fault?⟩
  else ⟨distance, [], true, none⟩

/-- The computation of shortest paths from a source. -/
def computation (source : NodeId) : Computation W D D where
  init _ node := if node = source then Distance.zero W else Distance.infinity W
  step := step source
  combiner := none

end ShortestPaths

end Superstep
