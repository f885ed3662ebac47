import Superstep.Proofs.Graph.CountingSort
import Superstep.Random.Graph

/-!
# The tables that this library makes

A table is made by freezing a builder that additions have filled, from a sequence of relationships,
or by a generator. Generators store what they draw without the tests of an addition; that they draw
nodes is all that is needed of them, and a key stream does (`Made.of_seededGraph`).

Results: `Made.exists_builder`, every table that is made is what a sound builder is frozen into;
`Made.exists_lists`, it is the table of the rows of relationships between its nodes, and weighted
only if there is one.
-/

namespace Superstep

variable {W : Type} [Weight W]

/-- The builders that additions lead to. -/
inductive Builder.Reached : Builder W → Prop where
  | new (nodeCount : UInt64) : Reached (new nodeCount)
  | undirected {b : Builder W} (h : Reached b) : Reached b.asUndirected
  | added {b b' : Builder W} {source target : NodeId} {weight : Option W} (h : Reached b)
      (hadd : b.addEither source target weight = .ok b') : Reached b'

theorem Builder.Reached.sound {b : Builder W} (h : b.Reached) : b.Sound := by
  induction h with
  | new nodeCount => exact .new nodeCount
  | undirected _ ih => exact ih.asUndirected
  | added _ hadd ih =>
    obtain ⟨haccepts, rfl⟩ := (addEither_eq_ok_iff ih).1 hadd
    exact haccepts.sound_push ih

/-! ## Generators -/

/-- All weights of a builder have a property. -/
def Builder.Weighs (weighs : W → Prop) (b : Builder W) : Prop :=
  ∀ ws ∈ b.weights, ∀ w ∈ ws, weighs w

theorem fold_keeps {α : Type} {n : Nat} {step : (i : Nat) → i < n → α → α} {start : α}
    (keeps : α → Prop) (hstart : keeps start) (hstep : ∀ i hi a, keeps a → keeps (step i hi a)) :
    keeps (Nat.fold n step start) := by
  induction n with
  | zero => exact hstart
  | succ n ih =>
    rw [Nat.fold_succ]
    exact hstep n _ _ (ih fun i hi => hstep i _)

namespace Builder.Weighs

variable {weighs : W → Prop} {b : Builder W} {source target : NodeId} {weight : Option W}

omit [Weight W]

theorem new (n : UInt64) : (Builder.new n : Builder W).Weighs weighs := by
  rintro ws ⟨⟩

theorem store (h : b.Weighs weighs) (hweight : ∀ w ∈ weight, weighs w) :
    (b.store source target weight).Weighs weighs := by
  cases weight with
  | none => exact h
  | some w =>
    rintro _ ⟨⟩ w' hw'
    rcases Array.mem_push.1 hw' with hw' | rfl
    · cases hws : b.weights with
      | none => simp [hws] at hw'
      | some ws => exact h ws hws w' (by simpa [hws] using hw')
    · exact hweight w' rfl

theorem push (h : b.Weighs weighs) (hweight : ∀ w ∈ weight, weighs w) :
    (b.push source target weight).Weighs weighs := by
  unfold Builder.push
  split
  · exact (h.store hweight).store hweight
  · exact h.store hweight

end Builder.Weighs

/-- A builder that is being filled by a generator. -/
structure Builder.Filling (nodeCount : UInt64) (weighted : Bool) (weighs : W → Prop)
    (b : Builder W) : Prop where
  nodeCount : b.nodeCount = nodeCount
  sound : b.Sound
  kind : b.size = 0 ∨ b.weights.isSome = weighted
  weights : b.Weighs weighs

namespace Builder.Filling

variable {n : UInt64} {weighted : Bool} {weighs : W → Prop} {b : Builder W}

omit [Weight W]

theorem new (n : UInt64) (weighted : Bool) :
    Filling n weighted weighs (Builder.new n : Builder W) :=
  ⟨rfl, .new n, .inl rfl, .new n⟩

theorem push (h : Filling n weighted weighs b) {source target : NodeId} {weight : Option W}
    (hsource : source.val < n) (htarget : target.val < n) (hkind : weight.isSome = weighted)
    (hweight : ∀ w ∈ weight, weighs w) :
    Filling n weighted weighs (b.push source target weight) := by
  obtain ⟨rfl, hsound, hagrees, hweighs⟩ := h
  subst hkind
  exact ⟨nodeCount_push .., hsound.push hsource htarget hagrees,
    .inr (hsound.weights_isSome_push hagrees source target hsource htarget), hweighs.push hweight⟩

end Builder.Filling

theorem ofIndex_val_lt {i : Nat} {n : UInt64} (h : i < n.toNat) : (NodeId.ofIndex i).val < n := by
  rw [UInt64.lt_iff_toNat_lt, ← NodeId.index,
    NodeId.index_ofIndex (Nat.lt_trans h (toNat_lt_wordLimit n))]
  exact h

omit [Weight W] in
theorem Graph.mem_nodes_iff {g : Graph W} {node : NodeId} :
    node ∈ g.nodes ↔ node.index < g.nodeCount.toNat := by
  rw [Graph.nodes, List.mem_map]
  constructor
  · rintro ⟨i, hi, rfl⟩
    have hi := List.mem_range.1 hi
    rwa [NodeId.index_ofIndex (Nat.lt_trans hi (toNat_lt_wordLimit _))]
  · intro h
    exact ⟨node.index, List.mem_range.2 h, NodeId.ofIndex_index node⟩

theorem eq_of_relationshipTotal {n : UInt64} {degree total : Nat}
    (h : relationshipTotal n degree = .ok total) : total = n.toNat * degree := by
  unfold relationshipTotal at h
  dsimp only at h
  split at h
  · exact (Except.ok.inj h).symm
  · cases h

/-- The cycle is frozen from a builder that has been filled with nodes. -/
theorem exists_builder_of_cycle [Memory.Allocator] {n : UInt64} {t : OffsetTable W}
    (h : cycle n = .ok t) :
    ∃ b : Builder W, b.Sound ∧ b.build = .ok t := by
  obtain ⟨total, htotal, h⟩ := exists_of_bind_eq_ok h
  obtain ⟨-, -, hbuild⟩ := exists_of_bind_eq_ok h
  have hle : total = n.toNat := (eq_of_relationshipTotal htotal).trans (Nat.mul_one _)
  refine ⟨_, (fold_keeps (Builder.Filling n false fun _ => True) (.new n false)
    fun i hi b hb => ?_).sound, hbuild⟩
  have hlt : i < n.toNat := hle ▸ hi
  exact hb.push (ofIndex_val_lt hlt) (UInt64.mod_lt _ (by
    rw [UInt64.lt_iff_toNat_lt]
    exact Nat.lt_of_le_of_lt (Nat.zero_le i) hlt)) rfl fun _ _ => trivial

/-- A source of draws stays below its bounds. -/
def Random.Draws.Bounded {S : Type} (d : Random.Draws S W) : Prop :=
  ∀ bound s, 0 < bound → (d.below bound s).1 < bound

theorem Random.KeyStream.bounded_draws : KeyStream.draws.Bounded := fun _ s h => below_lt h s

theorem Random.skipSource_lt {n source drawn : UInt64} (hn : 2 ≤ n) (hdrawn : drawn < n - 1) :
    Random.skipSource source drawn < n := by
  have hone : (1 : UInt64) ≤ n := UInt64.le_trans (by decide) hn
  rw [UInt64.lt_iff_toNat_lt, UInt64.toNat_sub_of_le _ _ hone, UInt64.toNat_one] at hdrawn
  have hlt := n.toNat_lt
  unfold Random.skipSource
  split
  · rw [UInt64.lt_iff_toNat_lt, UInt64.toNat_add, UInt64.toNat_one]
    omega
  · rw [UInt64.lt_iff_toNat_lt]
    omega

/-- A weight that can be drawn. -/
def Random.Draws.Gives {S : Type} (d : Random.Draws S W) (w : W) : Prop := ∃ s, (d.weight s).1 = w

omit [Weight W] in
/-- A relationship that is drawn joins two nodes. -/
theorem filling_drawRelationship {S : Type} {d : Random.Draws S W} (hd : d.Bounded) {n : UInt64}
    (hn : 2 ≤ n) {weighted : Bool} {source : NodeId} (hsource : source.val < n) {b : Builder W}
    (h : b.Filling n weighted d.Gives) (s : S) :
    (Random.drawRelationship d n weighted source b s).1.Filling n weighted d.Gives := by
  have hpos : 0 < n - 1 := by
    rw [UInt64.lt_iff_toNat_lt, UInt64.toNat_sub_of_le _ _ (UInt64.le_trans (by decide) hn)]
    have := UInt64.le_iff_toNat_le.1 hn
    simp at this ⊢
    omega
  have htarget : Random.skipSource source.val (d.below (n - 1) s).1 < n :=
    Random.skipSource_lt hn (hd (n - 1) s hpos)
  unfold Random.drawRelationship
  cases weighted with
  | true =>
    refine h.push hsource htarget rfl ?_
    rintro _ ⟨⟩
    exact ⟨_, rfl⟩
  | false => exact h.push hsource htarget rfl fun _ hw => nomatch hw

/-- A random graph is frozen from a builder that has been filled with nodes and drawn weights. -/
theorem exists_builder_of_randomGraph [Memory.Allocator] {S : Type} {d : Random.Draws S W}
    (hd : d.Bounded) {n : UInt64} {degree : Nat} {weighted : Bool} {s : S} {t : OffsetTable W}
    (h : Random.randomGraph d n degree weighted s = .ok t) :
    ∃ b : Builder W, b.Sound ∧ b.Weighs d.Gives ∧ b.build = .ok t := by
  unfold Random.randomGraph at h
  dsimp only at h
  split at h
  · exact ⟨_, .new n, .new n, h⟩
  · next hn =>
    obtain ⟨total, htotal, h⟩ := exists_of_bind_eq_ok h
    obtain ⟨-, -, hbuild⟩ := exists_of_bind_eq_ok h
    have hsource : ∀ i < total, i / degree < n.toNat := fun i hi => by
      rw [eq_of_relationshipTotal htotal, Nat.mul_comm] at hi
      exact Nat.div_lt_of_lt_mul hi
    have hfill : (Nat.fold total (fun i _ x =>
        Random.drawRelationship d n weighted (.ofIndex (i / degree)) x.1 x.2)
        (Builder.new n, s)).1.Filling n weighted d.Gives :=
      fold_keeps (fun x : Builder W × S => x.1.Filling n weighted d.Gives) (.new n weighted)
        fun i hi x hx =>
          filling_drawRelationship hd (UInt64.not_lt.1 hn) (ofIndex_val_lt (hsource i hi)) hx x.2
    exact ⟨_, hfill.sound, hfill.weights, hbuild⟩

/-! ## Tables -/

/-- The tables that this library makes: by a builder, from relationships, or by a generator. -/
inductive OffsetTable.Made [Memory.Allocator] : OffsetTable W → Prop where
  | built {b : Builder W} {t : OffsetTable W} (h : b.Reached) (hbuild : b.build = .ok t) : Made t
  | listed {n : UInt64} {rels : List (NodeId × NodeId × Option W)} {t : OffsetTable W}
      (h : ofRelationships n rels = .ok t) : Made t
  | cycle {n : UInt64} {t : OffsetTable W} (h : cycle n = .ok t) : Made t
  | random {S : Type} {d : Random.Draws S W} {n : UInt64} {degree : Nat} {weighted : Bool} {s : S}
      {t : OffsetTable W} (hd : d.Bounded) (h : Random.randomGraph d n degree weighted s = .ok t) :
      Made t

namespace OffsetTable

theorem Made.of_seededGraph [Memory.Allocator] {n : UInt64} {degree : Nat} {seed : UInt64}
    {weighted : Bool}
    {t : OffsetTable Float} (h : Random.seededGraph n degree seed weighted = .ok t) : t.Made :=
  .random Random.KeyStream.bounded_draws h

/-- Every table that is made is what a sound builder is frozen into. -/
theorem Made.exists_builder [Memory.Allocator] {t : OffsetTable W} (h : t.Made) :
    ∃ b : Builder W, b.Sound ∧ b.build = .ok t := by
  cases h with
  | built h hbuild => exact ⟨_, h.sound, hbuild⟩
  | @listed n rels _ h =>
    unfold ofRelationships at h
    split at h
    · next b hall => exact ⟨b, (Builder.added_of_addAll (.new n) hall).sound, h⟩
    · cases h
  | cycle h => exact exists_builder_of_cycle h
  | random hd h =>
    obtain ⟨b, hsound, -, hbuild⟩ := exists_builder_of_randomGraph hd h
    exact ⟨b, hsound, hbuild⟩

/-- The table of the rows of relationships between `n` nodes. It is weighted only if there is a
    relationship, and without weights of their own all have unit weight. -/
structure Lists (t : OffsetTable W) (n : UInt64) (es : List (NodeId × NodeId × W)) : Prop where
  table : t = ofRows t.weights.isSome (Builder.rowsOf n.toNat es)
  nodes : ∀ e ∈ es, e.1.val < n ∧ e.2.1.val < n
  weighted : t.weights.isSome → es ≠ []
  units : t.weights = none → ∀ e ∈ es, e.2.2 = Weight.unit

/-- A sound builder is frozen into the table of the relationships that it has stored. -/
theorem lists_of_build [Memory.Allocator] {b : Builder W} (hsound : b.Sound) {t : OffsetTable W}
    (hbuild : b.build = .ok t) : t.Lists b.nodeCount b.stored := by
  rw [Builder.build_eq hsound (Builder.allocatable_of_build hbuild)] at hbuild
  have htable := (Except.ok.inj hbuild).symm
  have hweights : t.weights.isSome = b.weights.isSome := by
    rw [htable, isSome_weights_ofRows]
  have hrels := hsound.relationships_eq
  refine ⟨hweights ▸ htable, fun e he => ?_, fun hsome => ?_, fun hnone => ?_⟩
  · refine hsound.nodes (e.1, e.2.1) ?_
    rw [hrels, List.toList_toArray]
    exact List.mem_map_of_mem he
  · rw [hweights] at hsome
    obtain ⟨ws, hws⟩ := Option.isSome_iff_exists.1 hsome
    obtain ⟨hsize, hpos⟩ := hsound.weights ws hws
    intro hnil
    rw [hsize, hrels, hnil] at hpos
    exact Nat.lt_irrefl 0 hpos
  · rw [hnone, Option.isSome_none] at hweights
    have hb : b.weights = none := by simpa using hweights.symm
    intro e he
    rw [Builder.stored, hb] at he
    obtain ⟨r, -, rfl⟩ := List.mem_map.1 he
    rfl

theorem Made.exists_lists [Memory.Allocator] {t : OffsetTable W} (h : t.Made) :
    ∃ n es, t.Lists n es := by
  obtain ⟨b, hsound, hbuild⟩ := h.exists_builder
  exact ⟨b.nodeCount, b.stored, lists_of_build hsound hbuild⟩

namespace Lists

variable {t : OffsetTable W} {n : UInt64} {es : List (NodeId × NodeId × W)} (h : t.Lists n es)
include h

theorem nodeCount_eq : t.nodeCount = n.toNat := by
  rw [h.table, nodeCount_ofRows, Builder.length_rowsOf]

theorem nodeCount_le {node : NodeId} (hnode : ¬ node.index < n.toNat) :
    t.nodeCount ≤ node.index := by
  rw [h.nodeCount_eq]
  exact Nat.le_of_not_lt hnode

theorem nodeCount_toGraph : t.toGraph.nodeCount = n := by
  rw [toGraph, h.nodeCount_eq]
  exact UInt64.ofNat_toNat

theorem relationships_eq {node : NodeId} (hnode : node.index < n.toNat) :
    t.relationships node = (es.filter fun e => e.1.index = node.index).map Prod.snd := by
  have hlt := Builder.lt_length_rowsOf hnode es
  rw [h.table, relationships_ofRows hlt, Builder.getElem_rowsOf]
  intro hunweighted r hr
  rw [Builder.getElem_rowsOf] at hr
  obtain ⟨e, he, rfl⟩ := List.mem_map.1 hr
  exact h.units (by simpa using hunweighted) e (List.mem_filter.1 he).1

/-- The relationships of any id are those that leave it: an id that is no node has none. -/
theorem relationships_eq_filter (node : NodeId) :
    t.relationships node = (es.filter fun e => e.1 = node).map Prod.snd := by
  by_cases hnode : node.index < n.toNat
  · simp only [h.relationships_eq hnode, NodeId.index_inj]
  · have hnone : (es.filter fun e => e.1 = node) = [] := by
      rw [List.filter_eq_nil_iff]
      intro e he hsource
      obtain rfl : e.1 = node := by simpa using hsource
      exact hnode (UInt64.lt_iff_toNat_lt.1 (h.nodes e he).1)
    rw [relationships_of_not_node (h.nodeCount_le hnode), hnone, List.map_nil]

theorem fault?_eq_none (node : NodeId) : t.fault? node = none := by
  rw [h.table]
  exact fault?_ofRows _ _ node

theorem map_relationships :
    t.toGraph.nodes.map t.toGraph.relationships = Builder.rowsOf n.toNat es := by
  rw [Graph.nodes, h.nodeCount_toGraph, List.map_map, Builder.rowsOf]
  refine List.map_congr_left fun i hi => ?_
  have hi := List.mem_range.1 hi
  have hindex : (NodeId.ofIndex i).index = i :=
    NodeId.index_ofIndex (Nat.lt_trans hi (toNat_lt_wordLimit n))
  have hrow := h.relationships_eq (hindex.symm ▸ hi : (NodeId.ofIndex i).index < n.toNat)
  rwa [hindex] at hrow

theorem exists_relationship (hweighted : t.weights.isSome) :
    ∃ node : NodeId, node.index < n.toNat ∧ t.relationships node ≠ [] := by
  obtain ⟨e, he⟩ := List.exists_mem_of_ne_nil es (h.weighted hweighted)
  have hnode : e.1.index < n.toNat := UInt64.lt_iff_toNat_lt.1 (h.nodes e he).1
  refine ⟨e.1, hnode, ?_⟩
  rw [h.relationships_eq hnode]
  exact List.ne_nil_of_mem (List.mem_map_of_mem (List.mem_filter.2 ⟨he, by simp⟩))

end Lists

end OffsetTable

end Superstep
