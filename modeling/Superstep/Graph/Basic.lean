import Superstep.Graph.Node

/-!
# Graphs as a run sees them

A computation reads a graph and never changes it. `Graph W` is all that it can see: the number of
nodes, the relationships that leave a node, in order, and whether they carry weights of their own.
Every store of graphs is turned into this view.

`Graph.visit` walks the relationships of a node and may stop early: the visitor keeps a state and
says after each relationship whether it wants the next one.

A store may be damaged, so that reading the relationships of a node breaks off. The view lists those
that are read before, and says what breaks the reading off (`ReadFault`). A visitor that stops early
does not get there. A graph that is built by this library has no faults.

Main statements: `visitAll_eq_foldl`, a visitor that never stops sees every relationship in order;
`visit_of_no_fault`, a walk over a node without a fault is not broken off; `weight?_eq_find?`, the
weight between two nodes is that of the first relationship that joins them.
-/

namespace Superstep

/-- What breaks off the reading of an array. -/
inductive ReadFault where
  /-- There is no element at `position`. -/
  | position (position size : Nat)
  /-- A stretch starts after the array. -/
  | start (start size : Nat)
  /-- A stretch ends after the array. -/
  | stop (stop size : Nat)
  /-- A stretch ends before it starts. -/
  | order (start stop : Nat)
deriving DecidableEq

/-- The wording of a fault. -/
def ReadFault.message : ReadFault → String
  | .position i n =>
    "index out of bounds: the len is " ++ Decimal.text n ++ " but the index is " ++ Decimal.text i
  | .start i n =>
    "range start index " ++ Decimal.text i ++ " out of range for slice of length " ++ Decimal.text n
  | .stop i n =>
    "range end index " ++ Decimal.text i ++ " out of range for slice of length " ++ Decimal.text n
  | .order i j =>
    "slice index starts at " ++ Decimal.text i ++ " but ends at " ++ Decimal.text j

/-- A graph as a computation sees it. -/
structure Graph (W : Type) where
  /-- The ids of the nodes are those below this number. -/
  nodeCount : UInt64
  relationshipCount : Nat
  /-- The number of relationships that leave a node. -/
  degree : NodeId → Nat
  /-- The relationships that leave a node, each with its target and its weight. -/
  relationships : NodeId → List (NodeId × W)
  /-- What breaks off the reading of a node's relationships, after those that are listed. -/
  fault? : NodeId → Option ReadFault
  /-- Whether the relationships carry weights of their own. -/
  isWeighted : Bool

namespace Graph

variable {W σ : Type}

/-- Walks a list of relationships until the visitor does not want to go on, and says whether it
    still wants to at the end. -/
def visitAll (visitor : σ → NodeId → W → σ × Bool) : σ → List (NodeId × W) → σ × Bool
  | s, [] => (s, true)
  | s, (target, weight) :: rest =>
    match visitor s target weight with
    | (s, true) => visitAll visitor s rest
    | (s, false) => (s, false)

/-- Walks the relationships that leave `node` until the visitor does not want to go on. The result
    is the last state, and what has broken the walk off, if anything has. -/
def visit (g : Graph W) (node : NodeId) (visitor : σ → NodeId → W → σ × Bool) (s : σ) :
    σ × Option ReadFault :=
  match visitAll visitor s (g.relationships node) with
  | (s, true) => (s, g.fault? node)
  | (s, false) => (s, none)

/-- The weight of the first relationship from `node` to `neighbor`, if there is one, and what has
    broken off the search for it. -/
def weight? (g : Graph W) (node neighbor : NodeId) : Option W × Option ReadFault :=
  g.visit node
    (fun found target weight => if target = neighbor then (some weight, false) else (found, true))
    none

/-- The targets of the relationships that leave `node`. -/
def neighbors (g : Graph W) (node : NodeId) : List NodeId :=
  (g.relationships node).map Prod.fst

/-- The nodes of a graph in ascending order. -/
def nodes (g : Graph W) : List NodeId :=
  (List.range g.nodeCount.toNat).map NodeId.ofIndex

/-- A visitor that always goes on sees every relationship in order. -/
theorem visitAll_eq_foldl (f : σ → NodeId → W → σ) (s : σ) (rs : List (NodeId × W)) :
    visitAll (fun s t w => (f s t w, true)) s rs = (rs.foldl (fun s r => f s r.1 r.2) s, true) := by
  induction rs generalizing s with
  | nil => rfl
  | cons r rs ih => exact ih _

/-- A walk over a node without a fault is not broken off. -/
theorem visit_of_no_fault {g : Graph W} {node : NodeId} (h : g.fault? node = none)
    (visitor : σ → NodeId → W → σ × Bool) (s : σ) :
    g.visit node visitor s = ((visitAll visitor s (g.relationships node)).1, none) := by
  unfold visit
  split <;> simp_all

/-- The weight between two nodes is the weight of the first relationship that joins them. -/
theorem weight?_eq_find? (g : Graph W) (node neighbor : NodeId) :
    (g.weight? node neighbor).1 =
      ((g.relationships node).find? (fun r => r.1 = neighbor)).map Prod.snd := by
  unfold weight? visit
  induction g.relationships node with
  | nil => rfl
  | cons r rs ih =>
    unfold visitAll
    by_cases h : r.1 = neighbor <;> simp_all

end Graph

end Superstep
