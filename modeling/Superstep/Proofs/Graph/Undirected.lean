import Mathlib.Data.List.Perm.Basic
import Mathlib.Tactic.Tauto
import Superstep.Proofs.EdgeList.Grammar
import Superstep.Proofs.Graph.Made

/-!
# Two ways to an undirected graph

An undirected builder stores every relationship in both directions while the relationships are
added. `OffsetTable.undirected` does it afterwards: it reads the relationships of a directed graph,
node by node, and adds them to an undirected builder. The two store the same relationships in
different orders, before the sort and after it.

What is read of a directed graph is what was added to it, in another order (`arcs_perm`); and the
order of the additions decides nothing but the order in which the relationships of a node come
(`agree_of_perm`). How often a graph of both directions joins two nodes is the sum of how often the
additions join them either way (`Builder.count_flatMap_bothWays`).

Result: `undirected_constructions_agree`, for sequences of additions and for edge lists.
-/

namespace Superstep

variable {W : Type}

/-! ## Both directions -/

namespace Builder

/-- A relationship in both directions, a self-loop once. -/
def bothWays (e : NodeId × NodeId × W) : List (NodeId × NodeId × W) :=
  e :: if e.1 = e.2.1 then [] else [(e.2.1, e.1, e.2.2)]

theorem entered_undirected [Weight W] (n : UInt64) (rels : List (NodeId × NodeId × Option W)) :
    (new n).asUndirected.entered rels = (rels.map weighed).flatMap bothWays := by
  rw [List.flatMap_map, entered]
  refine List.flatMap_congr fun r _ => ?_
  unfold directions bothWays
  by_cases h : r.1 = r.2.1 <;> simp [h, weighed, asUndirected]

theorem length_le_flatMap_bothWays (es : List (NodeId × NodeId × W)) :
    es.length ≤ (es.flatMap bothWays).length := by
  induction es with
  | nil => exact Nat.le_refl 0
  | cons e es ih =>
    rw [List.flatMap_cons, List.length_append, List.length_cons, bothWays, List.length_cons]
    omega

section Counts

variable [DecidableEq W]

/-- How often a relationship with the weight `w` from `u` to `v` is among the additions. Without a
    weight of its own it has unit weight. -/
def additions [Weight W] (rels : List (NodeId × NodeId × Option W)) (u v : NodeId) (w : W) : Nat :=
  (rels.map weighed).count (u, v, w)

/-- Between two nodes, the directions of a relationship are counted together; a self-loop counts
    once. -/
theorem count_bothWays (e : NodeId × NodeId × W) (u v : NodeId) (w : W) :
    (bothWays e).count (u, v, w) =
      [e].count (u, v, w) + if u = v then 0 else [e].count (v, u, w) := by
  obtain ⟨source, target, weight⟩ := e
  have hreverse : (target, source, weight) = (u, v, w) ↔ (source, target, weight) = (v, u, w) := by
    simp only [Prod.mk.injEq]
    tauto
  unfold bothWays
  split
  · next hloop =>
    split
    · rfl
    · next hne =>
      have hother : [(source, target, weight)].count (v, u, w) = 0 := by
        rw [List.count_eq_zero, List.mem_singleton]
        intro heq
        simp only [Prod.mk.injEq] at heq
        exact hne (heq.2.1.trans (hloop.symm.trans heq.1.symm))
      rw [hother, Nat.add_zero]
  · next hne =>
    rw [← List.singleton_append, List.count_append]
    congr 1
    split
    · next hsame =>
      rw [List.count_eq_zero, List.mem_singleton]
      intro heq
      simp only [Prod.mk.injEq] at heq
      exact hne (heq.2.1.symm.trans (hsame.symm.trans heq.1))
    · simp only [List.count_singleton, beq_iff_eq, hreverse]

theorem count_flatMap_bothWays (es : List (NodeId × NodeId × W)) (u v : NodeId) (w : W) :
    (es.flatMap bothWays).count (u, v, w) =
      es.count (u, v, w) + if u = v then 0 else es.count (v, u, w) := by
  induction es with
  | nil => simp
  | cons e es ih =>
    have hcons : ∀ x, (e :: es).count x = [e].count x + es.count x := fun x => by
      rw [← List.singleton_append, List.count_append]
    rw [List.flatMap_cons, List.count_append, ih, count_bothWays, hcons, hcons]
    split <;> omega

theorem count_map_filter (es : List (NodeId × NodeId × W)) (u v : NodeId) (w : W) :
    ((es.filter fun e => e.1 = u).map Prod.snd).count (v, w) = es.count (u, v, w) := by
  rw [List.count, List.countP_map, List.countP_filter, List.count]
  refine List.countP_congr fun e _ => ?_
  simp [Prod.ext_iff, and_comm, and_left_comm]

end Counts

theorem Acceptable.perm [Weight W] {n : UInt64} {rels rels' : List (NodeId × NodeId × Option W)}
    (h : Acceptable n rels) (hperm : rels.Perm rels') : Acceptable n rels' where
  nodes r hr := h.nodes r (hperm.mem_iff.2 hr)
  finite r hr := h.finite r (hperm.mem_iff.2 hr)
  uniform := h.uniform.imp (fun hsome r hr => hsome r (hperm.mem_iff.2 hr))
    fun hnone r hr => hnone r (hperm.mem_iff.2 hr)

/-- Whether one relationship of an acceptable sequence has a weight of its own, so has the sequence
    as a whole. -/
theorem Acceptable.any_eq [Weight W] {n : UInt64} {rels : List (NodeId × NodeId × Option W)}
    (h : Acceptable n rels) {r : NodeId × NodeId × Option W} (hr : r ∈ rels) :
    (rels.any fun r => r.2.2.isSome) = r.2.2.isSome := by
  rcases h.uniform with hsome | hnone
  · rw [hsome r hr, List.any_eq_true]
    exact ⟨r, hr, hsome r hr⟩
  · rw [hnone r hr, Option.isSome_none, List.any_eq_false]
    intro r' hr'
    simp [hnone r' hr']

theorem addAll_undirected_isOk_iff [Weight W] {n : UInt64}
    {rels : List (NodeId × NodeId × Option W)} :
    (∃ b, (new n).asUndirected.addAll rels = .ok b) ↔ ∃ b, (new n).addAll rels = .ok b :=
  (addAll_isOk_iff_acceptable (Sound.new n).asUndirected rfl).trans
    (addAll_isOk_iff_acceptable (Sound.new n) rfl).symm

end Builder

namespace OffsetTable

open Builder (weighed Acceptable Allocatable)

variable [Weight W]

/-! ## What is read of a graph that has been built -/

section Built

variable [Memory.Allocator] {b b' : Builder W} (h : b.Sound) (hempty : b.size = 0)
  {rels : List (NodeId × NodeId × Option W)} (hall : b.addAll rels = .ok b') {t : OffsetTable W}
  (hbuild : b'.build = .ok t)
include h hempty hall hbuild

theorem lists_of_addAll : t.Lists b.nodeCount (b.entered rels) := by
  have hadded := Builder.added_of_addAll h hall
  rw [← hadded.nodeCount, ← Builder.stored_of_addAll h hempty hall]
  exact lists_of_build hadded.sound hbuild

theorem isSome_weights_of_addAll : t.weights.isSome = rels.any fun r => r.2.2.isSome := by
  rw [((Builder.build_of_addAll h hempty hall).1 hbuild).2, isSome_weights_ofRows]

end Built

/-- The relationships of a directed graph, read node by node, are those that have been added, in
    another order. -/
theorem arcs_perm [Memory.Allocator] {n : UInt64} {rels : List (NodeId × NodeId × Option W)}
    {b : Builder W}
    (hall : (Builder.new n).addAll rels = .ok b) {t : OffsetTable W} (hbuild : b.build = .ok t) :
    t.arcs.Perm rels := by
  have hacceptable : Acceptable n rels :=
    (Builder.addAll_isOk_iff_acceptable (.new n) rfl).1 ⟨b, hall⟩
  have hlists := lists_of_addAll (.new n) rfl hall hbuild
  have hweighted := isSome_weights_of_addAll (.new n) rfl hall hbuild
  rw [Builder.entered_new] at hlists
  -- what is read of a relationship is the relationship
  have hread : ∀ r ∈ rels,
      (if t.weights.isSome then some (weighed r).2.2 else none) = r.2.2 := by
    intro r hr
    rw [hweighted, hacceptable.any_eq hr]
    obtain ⟨source, target, weight⟩ := r
    cases weight <;> rfl
  have hrow : ∀ i < n.toNat, ((t.relationships (.ofIndex i)).map fun e =>
      (NodeId.ofIndex i, e.1, if t.weights.isSome then some e.2 else none)) =
        rels.filter fun r => r.1.index = i := by
    intro i hi
    have hindex : (NodeId.ofIndex i).index = i :=
      NodeId.index_ofIndex (Nat.lt_trans hi (toNat_lt_wordLimit n))
    rw [hlists.relationships_eq (by rwa [hindex]), List.filter_map, List.map_map, List.map_map,
      hindex]
    refine (List.map_congr_left fun r hr => ?_).trans (List.map_id _)
    obtain ⟨hr, hsource⟩ := List.mem_filter.1 hr
    have hsource : r.1.index = i := of_decide_eq_true hsource
    refine Prod.ext ?_ (Prod.ext rfl (hread r hr))
    rw [← hsource]
    exact NodeId.ofIndex_index r.1
  have harcs : t.arcs = (List.range n.toNat).flatMap fun i => rels.filter fun r => r.1.index = i :=
    by
    rw [arcs, hlists.nodeCount_eq]
    exact List.flatMap_congr fun i hi => hrow i (List.mem_range.1 hi)
  rw [harcs]
  exact (perm_flatMap_filter (fun r => r.1.index) fun r hr =>
    UInt64.lt_iff_toNat_lt.1 (hacceptable.nodes r hr).1).symm

/-! ## Graphs that agree -/

/-- Two tables hold the same graph, apart from the order in which the relationships of a node
    come. -/
structure Agree (g g' : OffsetTable W) : Prop where
  nodeCount : g.nodeCount = g'.nodeCount
  weighted : g.weights.isSome = g'.weights.isSome
  readable : ∀ node, g.fault? node = none ∧ g'.fault? node = none
  relationships : ∀ node, (g.relationships node).Perm (g'.relationships node)

/-- The order of the additions decides only the order in which the relationships of a node come. -/
theorem agree_of_perm [Memory.Allocator] {b₀ b b' : Builder W} (h : b₀.Sound) (hempty : b₀.size = 0)
    {rels rels' : List (NodeId × NodeId × Option W)} (hperm : rels.Perm rels')
    (hall : b₀.addAll rels = .ok b) (hall' : b₀.addAll rels' = .ok b') {g g' : OffsetTable W}
    (hbuild : b.build = .ok g) (hbuild' : b'.build = .ok g') : g.Agree g' := by
  have hlists := lists_of_addAll h hempty hall hbuild
  have hlists' := lists_of_addAll h hempty hall' hbuild'
  refine ⟨?_, ?_, fun node => ⟨hlists.fault?_eq_none node, hlists'.fault?_eq_none node⟩,
    fun node => ?_⟩
  · rw [hlists.nodeCount_eq, hlists'.nodeCount_eq]
  · rw [isSome_weights_of_addAll h hempty hall hbuild,
      isSome_weights_of_addAll h hempty hall' hbuild']
    exact hperm.any_eq
  · rw [hlists.relationships_eq_filter, hlists'.relationships_eq_filter]
    exact ((hperm.flatMap_right _).filter _).map _

section Counts

variable [DecidableEq W]

/-- How often a relationship with the weight `w` leads from `u` to `v`. -/
def multiplicity (g : OffsetTable W) (u v : NodeId) (w : W) : Nat :=
  (g.relationships u).count (v, w)

/-- A graph joins two nodes as often as what `times` counts does, in both directions together. A
    self-loop is not doubled. -/
structure Symmetrizes (g : OffsetTable W) (times : NodeId → NodeId → W → Nat) : Prop where
  between : ∀ (u v : NodeId) (w : W), u ≠ v → g.multiplicity u v w = times u v w + times v u w
  selfLoop : ∀ (u : NodeId) (w : W), g.multiplicity u u w = times u u w

theorem Symmetrizes.symmetric {g : OffsetTable W} {times : NodeId → NodeId → W → Nat}
    (h : g.Symmetrizes times) (u v : NodeId) (w : W) :
    g.multiplicity u v w = g.multiplicity v u w := by
  by_cases hne : u = v
  · rw [hne]
  · rw [h.between u v w hne, h.between v u w (Ne.symm hne), Nat.add_comm]

variable {n : UInt64} {rels : List (NodeId × NodeId × Option W)} {b : Builder W}
  {t : OffsetTable W}

theorem symmetrizes_of_addAll [Memory.Allocator]
    (hall : (Builder.new n).asUndirected.addAll rels = .ok b)
    (hbuild : b.build = .ok t) : t.Symmetrizes (Builder.additions rels) := by
  have hlists := lists_of_addAll (Builder.Sound.new n).asUndirected rfl hall hbuild
  have hcount : ∀ u v w, t.multiplicity u v w =
      Builder.additions rels u v w + if u = v then 0 else Builder.additions rels v u w := by
    intro u v w
    rw [multiplicity, hlists.relationships_eq_filter, Builder.count_map_filter,
      Builder.entered_undirected, Builder.count_flatMap_bothWays]
    rfl
  constructor
  · intro u v w hne
    rw [hcount, if_neg hne]
  · intro u w
    rw [hcount, if_pos rfl, Nat.add_zero]

theorem multiplicity_of_addAll [Memory.Allocator] (hall : (Builder.new n).addAll rels = .ok b)
    (hbuild : b.build = .ok t) : t.multiplicity = Builder.additions rels := by
  funext u v w
  rw [multiplicity, (lists_of_addAll (.new n) rfl hall hbuild).relationships_eq_filter,
    Builder.count_map_filter, Builder.entered_new]
  rfl

end Counts

/-! ## Reversing afterwards -/

theorem undirected_eq_ok_iff [Memory.Allocator] {t m : OffsetTable W} :
    t.undirected = .ok m ↔
      ∃ b, (Builder.new t.nodeCount.toUInt64).asUndirected.addAll t.arcs = .ok b ∧
        b.build = .ok m := by
  unfold undirected
  cases (Builder.new t.nodeCount.toUInt64).asUndirected.addAll t.arcs with
  | error e => simp
  | ok b => simp

section Afterwards

variable [Memory.Allocator] {n : UInt64} {rels : List (NodeId × NodeId × Option W)}
  {directed : Builder W}
  (hdirected : (Builder.new n).addAll rels = .ok directed) {t : OffsetTable W}
  (ht : directed.build = .ok t)
include hdirected ht

/-- To reverse the relationships of a directed graph afterwards is to add them in another order. -/
theorem exists_undirected_iff {m : OffsetTable W} :
    t.undirected = .ok m ↔
      ∃ b, (Builder.new n).asUndirected.addAll t.arcs = .ok b ∧ b.build = .ok m := by
  have hcount : t.nodeCount.toUInt64 = n :=
    (lists_of_addAll (.new n) rfl hdirected ht).nodeCount_toGraph
  rw [undirected_eq_ok_iff, hcount]

variable {both : Builder W} (hboth : (Builder.new n).asUndirected.addAll rels = .ok both)
include hboth

/-- Reversing the relationships afterwards succeeds exactly if the arrays of the undirected graph
    fit. -/
theorem exists_undirected_iff_allocatable :
    (∃ m, t.undirected = .ok m) ↔ Allocatable n.toNat both.size := by
  have hundirected := (Builder.Sound.new (W := W) n).asUndirected
  have hperm := arcs_perm hdirected ht
  have hacceptable : Acceptable n t.arcs :=
    ((Builder.addAll_isOk_iff_acceptable hundirected rfl).1 ⟨both, hboth⟩).perm hperm.symm
  have hlength : ((Builder.new n).asUndirected.entered t.arcs).length = both.size := by
    rw [Builder.size_of_addAll hundirected rfl hboth]
    exact (hperm.flatMap_right _).length_eq
  simp only [exists_undirected_iff hdirected ht, Builder.build_addAll_iff hundirected rfl, hlength]
  constructor
  · rintro ⟨m, -, hfits, -⟩
    exact hfits
  · intro hfits
    exact ⟨_, hacceptable, hfits, rfl⟩

theorem agree_undirected {g m : OffsetTable W} (hg : both.build = .ok g)
    (hm : t.undirected = .ok m) : g.Agree m := by
  obtain ⟨b, hall, hbuild⟩ := (exists_undirected_iff hdirected ht).1 hm
  exact agree_of_perm (Builder.Sound.new n).asUndirected rfl (arcs_perm hdirected ht).symm hboth
    hall hg hbuild

end Afterwards

/-! ## The two ways side by side -/

/-- A graph `g` that has been built as an undirected one, and the graph `m` that a directed graph
    `t` becomes when its relationships are reversed. Both come from relationships that `times`
    counts. -/
structure Mirrored [DecidableEq W] (times : NodeId → NodeId → W → Nat) (t g m : OffsetTable W) :
    Prop where
  agree : g.Agree m
  counts : g.Symmetrizes times
  symmetric : ∀ u v w, g.multiplicity u v w = g.multiplicity v u w
  weighted : g.weights.isSome = t.weights.isSome

section SideBySide

variable [Memory.Allocator] {n : UInt64} {rels : List (NodeId × NodeId × Option W)}
  {directed both : Builder W}
  (hdirected : (Builder.new n).addAll rels = .ok directed)
  (hboth : (Builder.new n).asUndirected.addAll rels = .ok both)
include hdirected hboth

theorem exists_build_of_allocatable (hfits : Allocatable n.toNat both.size) :
    ∃ t, directed.build = .ok t := by
  have hle : rels.length ≤ both.size := by
    rw [Builder.size_of_addAll (Builder.Sound.new n).asUndirected rfl hboth,
      Builder.entered_undirected, ← List.length_map weighed]
    exact Builder.length_le_flatMap_bothWays _
  refine ⟨_, (Builder.build_of_addAll (.new n) rfl hdirected).2 ⟨⟨hfits.1, ?_⟩, rfl⟩⟩
  rw [Builder.entered_new, List.length_map]
  exact Memory.fits_of_le hle hfits.2

/-- Each way succeeds if the arrays of the undirected graph fit, and only then. -/
theorem exists_undirected_iffs :
    ((∃ g, both.build = .ok g) ↔ Allocatable n.toNat both.size) ∧
      ((∃ t m, directed.build = .ok t ∧ t.undirected = .ok m) ↔
        Allocatable n.toNat both.size) := by
  constructor
  · simp only [Builder.build_of_addAll (Builder.Sound.new n).asUndirected rfl hboth,
      ← Builder.size_of_addAll (Builder.Sound.new n).asUndirected rfl hboth]
    constructor
    · rintro ⟨g, hfits, -⟩
      exact hfits
    · intro hfits
      exact ⟨_, hfits, rfl⟩
  · constructor
    · rintro ⟨t, m, ht, hm⟩
      exact (exists_undirected_iff_allocatable hdirected ht hboth).1 ⟨m, hm⟩
    · intro hfits
      obtain ⟨t, ht⟩ := exists_build_of_allocatable hdirected hboth hfits
      obtain ⟨m, hm⟩ := (exists_undirected_iff_allocatable hdirected ht hboth).2 hfits
      exact ⟨t, m, ht, hm⟩

theorem mirrored_of_addAll [DecidableEq W] {g t m : OffsetTable W} (hg : both.build = .ok g)
    (ht : directed.build = .ok t) (hm : t.undirected = .ok m) :
    Mirrored (Builder.additions rels) t g m := by
  have hcounts := symmetrizes_of_addAll hboth hg
  refine ⟨agree_undirected hdirected ht hboth hg hm, hcounts, hcounts.symmetric, ?_⟩
  rw [isSome_weights_of_addAll (Builder.Sound.new n).asUndirected rfl hboth hg,
    isSome_weights_of_addAll (.new n) rfl hdirected ht]

end SideBySide

end OffsetTable

/-! ## Edge lists -/

namespace EdgeList

variable [Weight W]

/-- What is read of an edge list becomes relationships that both kinds of builders are given. -/
theorem parseBytes_eq_ok_iff [Memory.Allocator] {bytes : List UInt8} {undirected : Bool}
    {t : OffsetTable W} :
    parseBytes bytes undirected = .ok t ↔
      ∃ c : Contents W, Contents.empty.readLines 1 (Text.byteLines bytes) = .ok c ∧
        ∃ b, (if undirected then (Builder.new c.nodeCount).asUndirected
            else Builder.new c.nodeCount).addAll (c.entries.toList.map fun x => x.2.arc) = .ok b ∧
          b.build = .ok t := by
  simp only [← Contents.toOffsetTable_eq_ok_iff]
  constructor
  · intro h
    exact exists_of_bind_eq_ok h
  · rintro ⟨c, hread, htable⟩
    rw [parseBytes, parseLines, hread]
    exact htable

end EdgeList

/-- Let a sequence of relationships be added to an undirected builder, or to a directed one that is
    frozen and then has its relationships reversed. The builders take the same sequences, and both
    ways succeed exactly if the arrays of the undirected graph fit. The two graphs agree: each node
    has the same relationships with the same weights, equally often; as often as the additions join
    two nodes in either direction, a self-loop as often as it is added; so the graph is symmetric,
    and it is weighted if the directed one is. The same holds of an edge list that is read as an
    undirected graph, or as a directed one whose relationships are then reversed. -/
theorem undirected_constructions_agree [Memory.Allocator] [Weight W] [DecidableEq W] :
    (∀ (n : UInt64) (rels : List (NodeId × NodeId × Option W)),
      ((∃ both, (Builder.new n).asUndirected.addAll rels = .ok both) ↔
        ∃ directed, (Builder.new n).addAll rels = .ok directed) ∧
      ∀ directed both, (Builder.new n).addAll rels = .ok directed →
        (Builder.new n).asUndirected.addAll rels = .ok both →
        ((∃ g, both.build = .ok g) ↔ Builder.Allocatable n.toNat both.size) ∧
        ((∃ t m, directed.build = .ok t ∧ t.undirected = .ok m) ↔
          Builder.Allocatable n.toNat both.size) ∧
        ∀ g t m, both.build = .ok g → directed.build = .ok t → t.undirected = .ok m →
          OffsetTable.Mirrored (Builder.additions rels) t g m) ∧
    ∀ bytes : List UInt8,
      ((∃ g : OffsetTable W, EdgeList.parseBytes bytes true = .ok g) ↔
        ∃ t m : OffsetTable W, EdgeList.parseBytes bytes false = .ok t ∧ t.undirected = .ok m) ∧
      ∀ g t m : OffsetTable W, EdgeList.parseBytes bytes true = .ok g →
        EdgeList.parseBytes bytes false = .ok t → t.undirected = .ok m →
        OffsetTable.Mirrored t.multiplicity t g m := by
  refine ⟨fun n rels => ⟨Builder.addAll_undirected_isOk_iff, ?_⟩, fun bytes => ⟨?_, ?_⟩⟩
  · intro directed both hdirected hboth
    obtain ⟨hbuilt, hreversed⟩ := OffsetTable.exists_undirected_iffs hdirected hboth
    exact ⟨hbuilt, hreversed, fun g t m => OffsetTable.mirrored_of_addAll hdirected hboth⟩
  · simp only [EdgeList.parseBytes_eq_ok_iff, Bool.false_eq_true, ↓reduceIte]
    constructor
    · rintro ⟨g, c, hread, both, hboth, hg⟩
      obtain ⟨directed, hdirected⟩ := Builder.addAll_undirected_isOk_iff.1 ⟨both, hboth⟩
      obtain ⟨hbuilt, hreversed⟩ := OffsetTable.exists_undirected_iffs hdirected hboth
      obtain ⟨t, m, ht, hm⟩ := hreversed.2 (hbuilt.1 ⟨g, hg⟩)
      exact ⟨t, m, ⟨c, hread, directed, hdirected, ht⟩, hm⟩
    · rintro ⟨t, m, ⟨c, hread, directed, hdirected, ht⟩, hm⟩
      obtain ⟨both, hboth⟩ := Builder.addAll_undirected_isOk_iff.2 ⟨directed, hdirected⟩
      obtain ⟨hbuilt, hreversed⟩ := OffsetTable.exists_undirected_iffs hdirected hboth
      obtain ⟨g, hg⟩ := hbuilt.2 (hreversed.1 ⟨t, m, ht, hm⟩)
      exact ⟨g, c, hread, both, hboth, hg⟩
  · intro g t m hg ht hm
    obtain ⟨c, hread, both, hboth, hg⟩ := EdgeList.parseBytes_eq_ok_iff.1 hg
    obtain ⟨c', hread', directed, hdirected, ht⟩ := EdgeList.parseBytes_eq_ok_iff.1 ht
    obtain rfl : c = c' := Except.ok.inj (hread.symm.trans hread')
    rw [OffsetTable.multiplicity_of_addAll hdirected ht]
    exact OffsetTable.mirrored_of_addAll hdirected hboth hg ht hm

/-- Two nodes that are joined three times, in both directions, and a self-loop. -/
def joined : List (NodeId × NodeId × Option Float) :=
  [(⟨1⟩, ⟨0⟩, some 1.5), (⟨0⟩, ⟨1⟩, some 1.5), (⟨1⟩, ⟨1⟩, some 2.5), (⟨0⟩, ⟨1⟩, some 1.5)]

theorem undirected_constructions_agree_joined :
    ∃ (directed both : Builder Float) (g t m : OffsetTable Float),
      (Builder.new 2).addAll joined = .ok directed ∧
      (Builder.new 2).asUndirected.addAll joined = .ok both ∧
      both.build = .ok g ∧ directed.build = .ok t ∧ t.undirected = .ok m ∧
      g.Agree m ∧ g.weights.isSome = t.weights.isSome ∧
      g.multiplicity ⟨0⟩ ⟨1⟩ 1.5 = 3 ∧ g.multiplicity ⟨1⟩ ⟨1⟩ 2.5 = 1 := by
  obtain ⟨-, hways⟩ := (undirected_constructions_agree (W := Float)).1 2 joined
  obtain ⟨hbuilt, hreversed, hmirrored⟩ := hways _ _ rfl rfl
  have hfits : Builder.Allocatable 2 7 := ⟨by decide, by decide⟩
  obtain ⟨g, hg⟩ := hbuilt.2 hfits
  obtain ⟨t, m, ht, hm⟩ := hreversed.2 hfits
  obtain ⟨hagree, hcounts, -, hweighted⟩ := hmirrored g t m hg ht hm
  refine ⟨_, _, g, t, m, rfl, rfl, hg, ht, hm, hagree, hweighted, ?_, ?_⟩
  · rw [hcounts.between _ _ _ (by decide)]
    decide +kernel
  · rw [hcounts.selfLoop]
    decide +kernel

end Superstep
