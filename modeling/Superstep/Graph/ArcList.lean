import Superstep.Graph.Builder

/-!
# Graphs stored as a list of arcs

`ArcList` keeps the relationships of a graph as one list in the order of their addition. The end
points of an arc are nodes of the graph, and their indices have 32 bits: of longer ids the lower
half counts. A node's arcs are visited from the newest to the oldest, which is the order in which a
linked list of additions is read.

An arc list can be used as a graph directly (`toGraph`; every arc has a weight), or be copied into
an offset table (`toOffsetTable`), where the arcs of a node keep the order of their addition.

Weights may be stored in a smaller format than they are read in (`WeightFormat`).
-/

namespace Superstep

/-- The format in which an arc list stores its weights. -/
inductive WeightFormat where
  | double
  | single
  | int32
  | byte
deriving DecidableEq

namespace WeightFormat

/-- The weight that is read back after `w` has been stored. Integer formats drop the fraction, take
    the nearest end of their range for a weight outside it, and zero for what is not a number. -/
def stored : WeightFormat → Float → Float
  | .double, w => w
  | .single, w => w.toFloat32.toFloat
  | .int32, w => w.toInt32.toFloat
  | .byte, w => w.toUInt8.toFloat

end WeightFormat

/-- A graph stored as a list of arcs. -/
structure ArcList (W : Type) where
  nodeCount : Nat
  arcs : Array (NodeId × NodeId × W)

namespace ArcList

variable {W : Type}

/-- The graph with the given arcs, if their end points are nodes of it. -/
def ofArcs? (nodeCount : Nat) (arcs : List (NodeId × NodeId × W)) : Option (ArcList W) :=
  let arcs := arcs.map fun (source, target, w) => (source.narrow, target.narrow, w)
  if arcs.all fun (source, target, _) => source.index < nodeCount && target.index < nodeCount then
    some ⟨nodeCount, arcs.toArray⟩
  else none

/-- The arcs that leave the node with the 32-bit index of `node`, newest first. -/
def leaving (g : ArcList W) (node : NodeId) : List (NodeId × W) :=
  (g.arcs.toList.filter (·.1 = node.narrow)).reverse.map Prod.snd

/-- The arcs that leave `node`. The test for nodes of the graph uses all 64 bits of the id. -/
def relationships (g : ArcList W) (node : NodeId) : List (NodeId × W) :=
  if node.index < g.nodeCount then g.leaving node else []

/-- The view of an arc list that a run reads. -/
def toGraph (g : ArcList W) : Graph W where
  nodeCount := g.nodeCount.toUInt64
  relationshipCount := g.arcs.size
  degree node := (g.relationships node).length
  relationships := g.relationships
  fault? _ := none
  isWeighted := true

/-- Copies the arcs into an offset table, with the weight that `weight` gives them, or without
    weights. The copy takes the arcs as they are, without the tests of an addition. -/
def toOffsetTable [Memory.Allocator] [Weight W] (g : ArcList W) (weight : Option (W → W)) :
    Except GraphError (OffsetTable W) :=
  let start : Builder W := Builder.new g.nodeCount.toUInt64
  (g.arcs.foldl (fun b (source, target, w) => b.push source target (weight.map (· w)))
    start).build

end ArcList

end Superstep
