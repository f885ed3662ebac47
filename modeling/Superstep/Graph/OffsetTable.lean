import Superstep.Graph.Basic
import Superstep.Graph.Weight

/-!
# Graphs stored as an offset table

`OffsetTable` keeps the targets of all relationships in one array, node by node; the stretch from
`offsets[n]` up to `offsets[n + 1]` belongs to node `n`. A weighted graph keeps its weights in a
second array of the same layout.

Reading is defined for every id: an id that is not of the graph has no relationships. A table may be
given with offsets that do not fit its arrays; what is read from it then ends in a fault. Targets or
weights alone are read as a whole stretch (`stretchOf`), which is refused if it does not fit; the
relationships of a weighted graph are read one after the other until a target or a weight is
missing.

Main statements: `stretch?_eq_none_iff`, an id has a stretch exactly if it is below the node
count; `relationships_of_not_node` and `degree_of_not_node`; `stretchOf_of_le`, a stretch that fits
is read whole.
-/

namespace Superstep

/-- A graph stored as one array of targets with the offset of each node's stretch in it. -/
structure OffsetTable (W : Type) where
  offsets : Array Nat
  targets : Array NodeId
  weights : Option (Array W)
deriving DecidableEq, BEq

namespace OffsetTable

variable {W : Type}

/-- The number of nodes: there is one offset more than there are nodes. -/
def nodeCount (g : OffsetTable W) : Nat := g.offsets.size - 1

/-- Where the relationships of a node begin and end. -/
def stretch? (g : OffsetTable W) (node : NodeId) : Option (Nat × Nat) :=
  match g.offsets[node.index]?, g.offsets[node.index + 1]? with
  | some first, some last => some (first, last)
  | _, _ => none

/-- Why the positions from `first` up to `last` are not a stretch of an array of the given size. An
    end that is not of the array counts before two ends in the wrong order. -/
def stretchFault? (size first last : Nat) : Option ReadFault :=
  if size < first then some (.start first size)
  else if size < last then some (.stop last size)
  else if last < first then some (.order first last)
  else none

/-- The elements of an array from `first` up to `last`, refused if they are not a stretch of it. -/
def stretchOf {α : Type} (items : Array α) (first last : Nat) : Except ReadFault (List α) :=
  match stretchFault? items.size first last with
  | none => .ok (items.extract first last).toList
  | some fault => .error fault

/-- The targets of the relationships that leave a node. -/
def neighbors (g : OffsetTable W) (node : NodeId) : Except ReadFault (List NodeId) :=
  match g.stretch? node with
  | some (first, last) => stretchOf g.targets first last
  | none => .ok []

/-- The weights of the relationships that leave a node, if the graph is weighted and has it. -/
def weightsOf? (g : OffsetTable W) (node : NodeId) : Except ReadFault (Option (List W)) :=
  match g.stretch? node, g.weights with
  | some (first, last), some ws => some <$> stretchOf ws first last
  | _, _ => .ok none

/-- The weights of the relationships of all nodes, node by node, if the graph is weighted. Weights
    that belong to no node are left out. -/
def allWeights? (g : OffsetTable W) : Except ReadFault (Option (List W)) :=
  match g.weights with
  | some _ => do
    let found ← (List.range g.nodeCount).mapM fun i => g.weightsOf? (.ofIndex i)
    return some (found.flatMap fun ws => ws.getD [])
  | none => .ok none

/-- The number of relationships that leave a node: the distance of its offsets, as a machine word if
    the second is the smaller one. -/
def degree (g : OffsetTable W) (node : NodeId) : Nat :=
  match g.stretch? node with
  | some (first, last) => if first ≤ last then last - first else last + wordLimit - first
  | none => 0

/-- The fault that is met where the first relationship from `first` up to `last` lacks its target or
    its weight. -/
def missing? (targets : Array NodeId) (weights : Array W) (first last : Nat) : Option ReadFault :=
  let i := max first (min targets.size weights.size)
  if last ≤ i then none
  else if targets.size ≤ i then some (.position i targets.size)
  else some (.position i weights.size)

/-- What breaks off the reading of the relationships that leave a node. -/
def fault? (g : OffsetTable W) (node : NodeId) : Option ReadFault :=
  match g.stretch? node, g.weights with
  | some (first, last), some ws => missing? g.targets ws first last
  | some (first, last), none => stretchFault? g.targets.size first last
  | none, _ => none

/-- The relationships that leave a node, as far as they can be read. Those of an unweighted graph
    have unit weight; they are read as one stretch. -/
def relationships [Weight W] (g : OffsetTable W) (node : NodeId) : List (NodeId × W) :=
  match g.stretch? node, g.weights with
  | some (first, last), some ws =>
    (g.targets.extract first last).toList.zip (ws.extract first last).toList
  | some (first, last), none =>
    match stretchOf g.targets first last with
    | .ok targets => targets.map fun target => (target, Weight.unit)
    | .error _ => []
  | none, _ => []

/-- The view of an offset table that a run reads. -/
def toGraph [Weight W] (g : OffsetTable W) : Graph W where
  nodeCount := g.nodeCount.toUInt64
  relationshipCount := g.targets.size
  degree := g.degree
  relationships := g.relationships
  fault? := g.fault?
  isWeighted := g.weights.isSome

/-- An id has a stretch exactly if it is the id of a node. -/
theorem stretch?_eq_none_iff {g : OffsetTable W} {node : NodeId} :
    g.stretch? node = none ↔ g.nodeCount ≤ node.index := by
  unfold stretch? nodeCount
  by_cases h : node.index + 1 < g.offsets.size
  · have h' : node.index < g.offsets.size := by omega
    simp only [Array.getElem?_eq_getElem h, Array.getElem?_eq_getElem h', reduceCtorEq, false_iff]
    omega
  · simp only [Array.getElem?_eq_none (Nat.le_of_not_lt h)]
    constructor
    · intro; omega
    · intro; split <;> simp_all

theorem degree_of_not_node {g : OffsetTable W} {node : NodeId} (h : g.nodeCount ≤ node.index) :
    g.degree node = 0 := by
  simp [degree, stretch?_eq_none_iff.2 h]

theorem relationships_of_not_node [Weight W] {g : OffsetTable W} {node : NodeId}
    (h : g.nodeCount ≤ node.index) : g.relationships node = [] := by
  simp [relationships, stretch?_eq_none_iff.2 h]

/-- A stretch that fits is read whole. -/
theorem stretchOf_of_le {α : Type} {items : Array α} {first last : Nat} (h : first ≤ last)
    (h' : last ≤ items.size) :
    stretchOf items first last = .ok (items.extract first last).toList := by
  simp [stretchOf, stretchFault?, Nat.not_lt.2 h, Nat.not_lt.2 h', Nat.not_lt.2 (Nat.le_trans h h')]

end OffsetTable

end Superstep
