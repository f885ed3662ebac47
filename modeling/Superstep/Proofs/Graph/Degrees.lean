import Mathlib.Algebra.BigOperators.Group.Finset.Sigma
import Mathlib.Algebra.BigOperators.Group.List.Basic
import Mathlib.Algebra.BigOperators.Ring.Finset
import Mathlib.Algebra.Order.BigOperators.Group.Multiset
import Superstep.Proofs.Graph.Walks

/-!
# Counting relationships

The degree of a node is the number of relationships that leave it (`Graph.Counted`). A sum over all
relationships of a graph can be taken by their sources or by their targets; the relationships from
`u` to `v` are counted by the times that `v` is a neighbour of `u`.

Results:
* `OffsetTable.Made.counted`: the graphs of this library are counted.
* `sum_by_target`: what every node passes on along each of its relationships is what all nodes
  receive.
-/

namespace Superstep

/-- The degree of every node is the number of relationships that leave it. -/
def Graph.Counted {W : Type} (g : Graph W) : Prop :=
  ∀ v, g.IsNode v → g.degree v = (g.relationships v).length

/-- The offsets of a node are as far apart as it has relationships. -/
theorem OffsetTable.Lists.degree_eq {W : Type} [Weight W] {t : OffsetTable W} {n : UInt64}
    {es : List (NodeId × NodeId × W)} (h : t.Lists n es) (node : NodeId) :
    t.degree node = (t.relationships node).length := by
  by_cases hnode : node.index < n.toNat
  · have hrows := Builder.lt_length_rowsOf hnode es
    have hle := rowStart_le_succ hrows
    rw [h.relationships_eq hnode, degree, h.table, stretch?_ofRows hrows]
    dsimp only
    rw [if_pos hle, rowStart_succ hrows, Nat.add_sub_cancel_left, Builder.getElem_rowsOf _ hrows]
  · have hge := h.nodeCount_le hnode
    rw [degree_of_not_node hge, relationships_of_not_node hge]
    rfl

theorem OffsetTable.Made.counted [Memory.Allocator] {W : Type} [Weight W] {t : OffsetTable W}
    (h : t.Made) :
    t.toGraph.Counted := by
  obtain ⟨n, es, hlists⟩ := h.exists_lists
  exact fun v _ => hlists.degree_eq v

namespace Graph

variable {W : Type} {g : Graph W} {u v : NodeId}

theorem nodup_nodes (g : Graph W) : g.nodes.Nodup := by
  refine List.Nodup.map_on ?_ List.nodup_range
  intro i hi j hj hij
  have hlimit := toNat_lt_wordLimit g.nodeCount
  rw [List.mem_range] at hi hj
  rw [← NodeId.index_ofIndex (hi.trans hlimit), hij, NodeId.index_ofIndex (hj.trans hlimit)]

theorem sum_nodes {K : Type} [AddCommMonoid K] (g : Graph W) (x : NodeId → K) :
    ∑ v ∈ g.nodes.toFinset, x v =
      ((List.range g.nodeCount.toNat).map fun i => x (.ofIndex i)).sum := by
  rw [List.sum_toFinset x g.nodup_nodes, nodes, List.map_map]
  rfl

theorem card_nodes (g : Graph W) : g.nodes.toFinset.card = g.nodeCount.toNat := by
  rw [List.toFinset_card_of_nodup g.nodup_nodes, nodes, List.length_map, List.length_range]

theorem mem_toFinset_nodes : v ∈ g.nodes.toFinset ↔ g.IsNode v :=
  List.mem_toFinset.trans mem_nodes_iff

theorem Closed.sum_count_neighbors (h : g.Closed) (hu : g.IsNode u) :
    ∑ v ∈ g.nodes.toFinset, (g.neighbors u).count v = (g.relationships u).length := by
  have hall : ∀ v ∈ (g.neighbors u : Multiset NodeId), v ∈ g.nodes.toFinset := by
    intro v hv
    obtain ⟨r, hr, rfl⟩ := List.mem_map.1 hv
    exact mem_toFinset_nodes.2 (h.isNode hu hr)
  have hcount := Multiset.sum_count_eq_card hall
  simp only [Multiset.coe_count, Multiset.coe_card] at hcount
  rw [hcount, neighbors, List.length_map]

theorem Closed.sum_by_target {K : Type} [CommSemiring K] (h : g.Closed) (share : NodeId → K) :
    ∑ v ∈ g.nodes.toFinset, ∑ u ∈ g.nodes.toFinset, (g.neighbors u).count v * share u =
      ∑ u ∈ g.nodes.toFinset, (g.relationships u).length * share u := by
  rw [Finset.sum_comm]
  apply Finset.sum_congr rfl
  intro u hu
  rw [← Finset.sum_mul, ← Nat.cast_sum, h.sum_count_neighbors (mem_toFinset_nodes.1 hu)]

end Graph

end Superstep
