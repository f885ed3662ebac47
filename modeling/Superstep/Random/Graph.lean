import Superstep.Graph.Builder
import Superstep.Random.Draws

/-!
# Generated graphs

`cycle` joins each node to its successor. `randomGraph` gives every node the same number of
relationships, each to a node drawn uniformly from the other nodes. The draws come from any source
(`Random.Draws`); `seededGraph` takes them from the key stream of a seed, so that the same arguments
always give the same graph.

A generator reserves the relationships before it draws them. It does not reserve the weights: that
their list finds the memory to grow is taken for granted here. Graphs with fewer than two nodes have
no relationships.
-/

namespace Superstep

/-- The number of relationships of a graph whose nodes all have the same degree, if it is a machine
    word. -/
def relationshipTotal (nodeCount : UInt64) (degree : Nat) : Except GraphError Nat :=
  let total := nodeCount.toNat * degree
  if total < wordLimit then .ok total
  else .error (.resourceExhausted "relationships" (wordLimit - 1))

/-- The directed cycle through all nodes in ascending order. -/
def cycle [Memory.Allocator] {W : Type} [Weight W] (nodeCount : UInt64) :
    Except GraphError (OffsetTable W) := do
  let b : Builder W := Builder.new nodeCount
  let total ← relationshipTotal nodeCount 1
  b.reserve total
  let b := Nat.fold total (fun i _ b =>
    b.push (.ofIndex i) ⟨(i.toUInt64 + 1) % nodeCount⟩ none) b
  b.build

namespace Random

variable {S W : Type}

/-- The node that a draw from `nodeCount - 1` candidates stands for: candidates from the source
    upwards are moved up by one, which skips the source. -/
def skipSource (source drawn : UInt64) : UInt64 := if drawn ≥ source then drawn + 1 else drawn

/-- Draws one relationship that leaves `source`. -/
def drawRelationship (d : Draws S W) (nodeCount : UInt64) (weighted : Bool) (source : NodeId)
    (b : Builder W) (s : S) : Builder W × S :=
  let (drawn, s) := d.below (nodeCount - 1) s
  let target : NodeId := ⟨skipSource source.val drawn⟩
  if weighted then
    let (w, s) := d.weight s
    (b.push source target (some w), s)
  else (b.push source target none, s)

/-- A graph in which every node has `degree` relationships to other nodes. They are drawn source by
    source. -/
def randomGraph [Memory.Allocator] [Weight W] (d : Draws S W) (nodeCount : UInt64) (degree : Nat)
    (weighted : Bool) (s : S) : Except GraphError (OffsetTable W) := do
  let b : Builder W := Builder.new nodeCount
  if nodeCount < 2 then
    return ← b.build
  let total ← relationshipTotal nodeCount degree
  b.reserve total
  let (b, _) := Nat.fold total (fun i _ (b, s) =>
    drawRelationship d nodeCount weighted (.ofIndex (i / degree)) b s) (b, s)
  b.build

/-- The random graph of a seed, with weights drawn from `[1, 10)` if it is to be weighted. -/
def seededGraph [Memory.Allocator] (nodeCount : UInt64) (degree : Nat) (seed : UInt64)
    (weighted : Bool) :
    Except GraphError (OffsetTable Float) :=
  randomGraph KeyStream.draws nodeCount degree weighted (KeyStream.ofSeed seed)

end Random

end Superstep
