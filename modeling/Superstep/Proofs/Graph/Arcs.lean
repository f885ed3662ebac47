import Superstep.Proofs.Graph.Degrees
import Superstep.Proofs.Graph.Finite

/-!
# Arc lists and their copies

An arc list comes of adding nodes and arcs one by one (`ArcList.Built`). It lists the arcs of a node
from the newest to the oldest, and the table that it is copied into lists them the other way round.
Otherwise the two are the same graph (`Graph.Reorders`), and both have nothing for an id that is no
node, even if its low 32 bits are the index of one.

Results:
* `Built.exists_copy_iff`, `Built.exists_copy`: when an arc list can be copied.
* `Built.relationships_copy`: the orders in which the two list the relationships of an id.
* `Built.weight?_eq`, `Built.weight?_copy`: the weight between two nodes is that of the last arc
  added, and in the copy that of the first one.
* `Built.reorders`: the copy reorders the relationships of the arc list.
-/

namespace Superstep

/-- The relationships of the one graph are those of the other one in another order, and both can be
    read. -/
structure Graph.Reorders {W : Type} (g g' : Graph W) : Prop where
  nodeCount_eq : g'.nodeCount = g.nodeCount
  degree_eq : ∀ v, g'.degree v = g.degree v
  relationships_perm : ∀ v, (g.relationships v).Perm (g'.relationships v)
  readable : ∀ v, g.fault? v = none ∧ g'.fault? v = none

theorem Graph.Reorders.symm {W : Type} {g g' : Graph W} (h : g.Reorders g') : g'.Reorders g :=
  ⟨h.nodeCount_eq.symm, fun v => (h.degree_eq v).symm, fun v => (h.relationships_perm v).symm,
    fun v => (h.readable v).symm⟩

theorem Graph.weight?_of_no_fault {W : Type} {g : Graph W} {u v : NodeId}
    (h : g.fault? u = none) :
    g.weight? u v = (((g.relationships u).find? fun r => r.1 = v).map Prod.snd, none) := by
  rw [← weight?_eq_find?]
  unfold weight?
  rw [visit_of_no_fault h]

namespace NodeId

theorem narrow_of_lt {v : NodeId} (h : v.index < 4294967296) : v.narrow = v := by
  apply index_inj.1
  show (v.val &&& 0xffffffff).toNat = v.val.toNat
  rw [UInt64.toNat_and]
  exact (Nat.and_two_pow_sub_one_eq_mod v.val.toNat 32).trans (Nat.mod_eq_of_lt h)

end NodeId

namespace ArcList

variable {W : Type}

/-- The largest number of nodes, and of arcs: they have 32-bit indices, and the largest index is not
    used. -/
def room : Nat := 4294967295

/-- Arc lists to which nodes and arcs have been added one by one, the arcs between nodes that were
    there. -/
inductive Built : ArcList W → Prop
  | empty : Built ⟨0, #[]⟩
  | addNode {g : ArcList W} :
    Built g → g.nodeCount < room → Built { g with nodeCount := g.nodeCount + 1 }
  | addArc {g : ArcList W} {source target : NodeId} (w : W) :
    Built g → source.index < g.nodeCount → target.index < g.nodeCount → g.arcs.size < room →
      Built { g with arcs := g.arcs.push (source, target, w) }

/-- The arcs from `u` to `v`, in the order of their addition. -/
def between (g : ArcList W) (u v : NodeId) : List (NodeId × NodeId × W) :=
  g.arcs.toList.filter fun a => a.1 = u ∧ a.2.1 = v

theorem built_nodes {n : Nat} (hn : n ≤ room) : Built (⟨n, #[]⟩ : ArcList W) := by
  induction n with
  | zero => exact .empty
  | succ n ih => exact (ih (by omega)).addNode hn

theorem built_arcs {n : Nat} (hn : n ≤ room) {arcs : List (NodeId × NodeId × W)}
    (harcs : arcs.length ≤ room) (hnodes : ∀ a ∈ arcs, a.1.index < n ∧ a.2.1.index < n) :
    Built ⟨n, arcs.toArray⟩ := by
  induction arcs using List.reverseRecOn with
  | nil => exact built_nodes hn
  | append_singleton arcs a ih =>
    rw [List.length_append, List.length_singleton] at harcs
    obtain ⟨hsource, htarget⟩ := hnodes a (by simp)
    have hbuilt := ih (by omega) fun b hb => hnodes b (List.mem_append_left _ hb)
    rw [← List.push_toArray]
    exact hbuilt.addArc a.2.2 hsource htarget harcs

theorem built_of_ofArcs? {n : Nat} {arcs : List (NodeId × NodeId × W)} {g : ArcList W}
    (h : ofArcs? n arcs = some g) (hn : n ≤ room) (harcs : arcs.length ≤ room) : g.Built := by
  unfold ofArcs? at h
  dsimp only at h
  split at h
  · next hall =>
    obtain rfl := Option.some.inj h
    rw [List.all_eq_true] at hall
    refine built_arcs hn (by rwa [List.length_map]) fun a ha => ?_
    simpa using hall a ha
  · cases h

namespace Built

variable {g : ArcList W}

/-- Arcs are between nodes, and there is room for all nodes and arcs. -/
theorem sound (h : g.Built) : g.Sound ∧ g.nodeCount ≤ room ∧ g.arcs.size ≤ room := by
  induction h with
  | empty =>
    refine ⟨⟨fun a ha => ?_, Nat.zero_lt_succ _⟩, Nat.zero_le _, Nat.zero_le _⟩
    simp at ha
  | @addNode g _ hroom ih =>
    obtain ⟨hsound, hnodes, harcs⟩ := ih
    have hfits : g.nodeCount + 1 < wordLimit := by
      unfold room at hroom
      unfold wordLimit
      omega
    refine ⟨⟨fun a ha => ?_, hfits⟩, hroom, harcs⟩
    obtain ⟨h1, h2⟩ := hsound.nodes a ha
    exact ⟨Nat.lt_succ_of_lt h1, Nat.lt_succ_of_lt h2⟩
  | @addArc g source target w _ hsource htarget hroom ih =>
    obtain ⟨hsound, hnodes, harcs⟩ := ih
    refine ⟨⟨fun a ha => ?_, hsound.fits⟩, hnodes, by rw [Array.size_push]; exact hroom⟩
    rcases Array.mem_push.1 ha with ha | rfl
    · exact hsound.nodes a ha
    · exact ⟨hsource, htarget⟩

theorem toNat_nodeCount (h : g.Built) : g.nodeCount.toUInt64.toNat = g.nodeCount :=
  toNat_toUInt64 h.sound.1.fits

theorem isNode_iff (h : g.Built) {v : NodeId} : g.toGraph.IsNode v ↔ v.index < g.nodeCount := by
  unfold Graph.IsNode
  rw [toGraph, h.toNat_nodeCount]

/-- Arcs that leave a node have its id: it has at most 32 bits. -/
theorem relationships_eq (h : g.Built) (v : NodeId) :
    g.relationships v = ((g.arcs.toList.filter fun a => a.1 = v).map Prod.snd).reverse := by
  obtain ⟨hsound, hnodes, -⟩ := h.sound
  unfold relationships
  split_ifs with hv
  · unfold leaving
    rw [NodeId.narrow_of_lt (by unfold room at hnodes; omega), List.map_reverse]
  · have hnone : (g.arcs.toList.filter fun a => a.1 = v) = [] := by
      rw [List.filter_eq_nil_iff]
      intro a ha hsource
      obtain rfl : a.1 = v := by simpa using hsource
      exact hv (hsound.nodes a (Array.mem_toList_iff.1 ha)).1
    rw [hnone]
    rfl

theorem relationships_of_not_isNode (h : g.Built) {v : NodeId} (hv : ¬ g.toGraph.IsNode v) :
    g.relationships v = [] := by
  rw [h.isNode_iff] at hv
  exact if_neg hv

theorem weight?_eq (h : g.Built) (u v : NodeId) :
    g.toGraph.weight? u v = ((g.between u v).getLast?.map fun a => a.2.2, none) := by
  rw [Graph.weight?_of_no_fault rfl]
  show (((g.relationships u).find? fun r => r.1 = v).map Prod.snd, none) = _
  rw [h.relationships_eq, ← List.head?_filter, List.filter_reverse, List.head?_reverse,
    List.filter_map, List.filter_filter, List.getLast?_map, Option.map_map]
  simp only [between, Function.comp_def, Bool.decide_and, Bool.and_comm]

/-! ## Copies -/

variable [Weight W] {t : OffsetTable W}

/-- An arc list can be copied exactly if the arrays of the copy fit. -/
theorem exists_copy_iff [Memory.Allocator] (h : g.Built) :
    (∃ t, g.toOffsetTable (some id) = .ok t) ↔
      Builder.Allocatable g.nodeCount g.arcs.size := by
  obtain ⟨b, hfilling, hstored, hcopy⟩ := exists_builder_of_toOffsetTable h.sound.1 (some id)
  have hcount : b.nodeCount.toNat = g.nodeCount := by
    rw [hfilling.nodeCount, h.toNat_nodeCount]
  have hsize : b.relationships.size = g.arcs.size := by
    rw [hfilling.sound.relationships_eq, hstored]
    simp [given]
  rw [hcopy, ← hcount, ← hsize]
  constructor
  · rintro ⟨t, ht⟩
    exact Builder.allocatable_of_build ht
  · intro hfits
    exact ⟨_, Builder.build_eq hfilling.sound hfits⟩

/-- With so few nodes and arcs there is memory for the copy within `Memory.limit`. -/
theorem exists_copy (h : g.Built) : ∃ t, g.toOffsetTable (some id) = .ok t := by
  obtain ⟨-, hnodes, harcs⟩ := h.sound
  unfold room at hnodes harcs
  exact h.exists_copy_iff.2 ⟨decide_eq_true (by simp only [Memory.wordBytes, Memory.limit]; omega),
    decide_eq_true (by simp only [Memory.wordBytes, Memory.limit]; omega)⟩

theorem lists_copy [Memory.Allocator] (h : g.Built) (ht : g.toOffsetTable (some id) = .ok t) :
    t.Lists g.nodeCount.toUInt64 g.arcs.toList := by
  obtain ⟨b, hfilling, hstored, hcopy⟩ := exists_builder_of_toOffsetTable h.sound.1 (some id)
  have hlists := OffsetTable.lists_of_build hfilling.sound (hcopy.symm.trans ht)
  rw [hfilling.nodeCount, hstored] at hlists
  have harcs : (g.given (some id)).map Builder.weighed = g.arcs.toList := by
    rw [given, List.map_map]
    exact List.map_id _
  rwa [harcs] at hlists

theorem relationships_copy [Memory.Allocator] (h : g.Built) (ht : g.toOffsetTable (some id) = .ok t)
    (v : NodeId) :
    g.relationships v = (t.relationships v).reverse := by
  rw [h.relationships_eq, (h.lists_copy ht).relationships_eq_filter]

theorem weight?_copy [Memory.Allocator] (h : g.Built) (ht : g.toOffsetTable (some id) = .ok t)
    (u v : NodeId) :
    t.toGraph.weight? u v = ((g.between u v).head?.map fun a => a.2.2, none) := by
  have hlists := h.lists_copy ht
  rw [Graph.weight?_of_no_fault (hlists.fault?_eq_none u)]
  show (((t.relationships u).find? fun r => r.1 = v).map Prod.snd, none) = _
  rw [hlists.relationships_eq_filter, ← List.head?_filter, List.filter_map, List.filter_filter,
    List.head?_map, Option.map_map]
  simp only [between, Function.comp_def, Bool.decide_and, Bool.and_comm]

/-- If parallel arcs have equal weights, the two agree on the weight between two nodes. -/
theorem weight?_copy_eq [Memory.Allocator] (h : g.Built) (ht : g.toOffsetTable (some id) = .ok t)
    {u v : NodeId} (hparallel : ∀ a ∈ g.between u v, ∀ b ∈ g.between u v, a.2.2 = b.2.2) :
    g.toGraph.weight? u v = t.toGraph.weight? u v := by
  rw [h.weight?_eq, h.weight?_copy ht]
  cases harcs : g.between u v with
  | nil => rfl
  | cons first rest =>
    have hne : g.between u v ≠ [] := by rw [harcs]; exact List.cons_ne_nil _ _
    have hlast := hparallel _ (List.getLast_mem hne) first (by rw [harcs]; exact List.mem_cons_self)
    simp only [harcs] at hlast
    rw [List.getLast?_eq_some_getLast (List.cons_ne_nil _ _), List.head?_cons, Option.map_some,
      Option.map_some, hlast]

/-- The copy has the relationships of the arc list in another order. -/
theorem reorders [Memory.Allocator] (h : g.Built) (ht : g.toOffsetTable (some id) = .ok t) :
    g.toGraph.Reorders t.toGraph where
  nodeCount_eq := (h.lists_copy ht).nodeCount_toGraph
  degree_eq v := by
    show t.degree v = (g.relationships v).length
    rw [h.relationships_copy ht, List.length_reverse, (h.lists_copy ht).degree_eq]
  relationships_perm v := by
    show (g.relationships v).Perm (t.relationships v)
    rw [h.relationships_copy ht]
    exact List.reverse_perm _
  readable v := ⟨rfl, (h.lists_copy ht).fault?_eq_none v⟩

theorem relationshipCount_copy [Memory.Allocator] (h : g.Built)
    (ht : g.toOffsetTable (some id) = .ok t) :
    t.toGraph.relationshipCount = g.toGraph.relationshipCount := by
  have hlists := h.lists_copy ht
  have hperm := perm_flatMap_filter (fun a : NodeId × NodeId × W => a.1.index)
    fun a ha => UInt64.lt_iff_toNat_lt.1 (hlists.nodes a ha).1
  show t.targets.size = g.arcs.size
  rw [hlists.table, OffsetTable.size_targets_ofRows, Builder.rowsOf, ← Array.length_toList,
    hperm.length_eq, List.length_flatten, List.length_flatMap, List.map_map]
  simp [Function.comp_def]

end Built

end ArcList

end Superstep
