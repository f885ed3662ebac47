import Superstep.Graph.ArcList
import Superstep.Proofs.Graph.Made
import Superstep.Proofs.Random.Weights

/-!
# Finite weights

An addition tests that a weight is finite. Two ways to a table leave the test out: a generator
stores the weights that it draws, and a copy of an arc list the weights that it is given. A table
has the weights that its builder had (`Builder.Sound.forall_weights_iff`), so that the question is
what reaches the builder.

Results: `Builder.Reached.finite`, additions keep weights finite; `finite_of_seededGraph`, the
weights of a random graph are finite; `finite_toOffsetTable_iff`, those of a copied arc list are
exactly if the weight of every arc is.
-/

namespace Superstep

variable {W : Type} [Weight W]

/-- All weights of a table are finite. -/
def OffsetTable.Finite (t : OffsetTable W) : Prop := ∀ ws ∈ t.weights, ∀ w ∈ ws, Weight.isFinite w

instance (t : OffsetTable W) : Decidable t.Finite :=
  inferInstanceAs (Decidable (∀ ws ∈ t.weights, ∀ w ∈ ws, Weight.isFinite w))

/-- The weights of a table are those of its relationships. -/
theorem OffsetTable.Lists.mem_weights_iff {t : OffsetTable W} {n : UInt64}
    {es : List (NodeId × NodeId × W)} (h : t.Lists n es) {ws : Array W} (hws : ws ∈ t.weights)
    {w : W} : w ∈ ws ↔ ∃ e ∈ es, e.2.2 = w := by
  have hrows : t.weights = some ((Builder.rowsOf n.toNat es).flatten.map Prod.snd).toArray := by
    have hsome : t.weights.isSome := Option.isSome_of_mem hws
    rw [h.table, hsome]
    rfl
  obtain rfl := Option.some.inj (hws.symm.trans hrows)
  rw [List.mem_toArray, List.mem_map, Builder.rowsOf, ← List.flatMap_def]
  constructor
  · rintro ⟨r, hr, rfl⟩
    obtain ⟨i, -, hr⟩ := List.mem_flatMap.1 hr
    obtain ⟨e, he, rfl⟩ := List.mem_map.1 hr
    exact ⟨e, (List.mem_filter.1 he).1, rfl⟩
  · rintro ⟨e, he, rfl⟩
    have hnode : e.1.index < n.toNat := UInt64.lt_iff_toNat_lt.1 (h.nodes e he).1
    exact ⟨e.2, List.mem_flatMap.2 ⟨e.1.index, List.mem_range.2 hnode,
      List.mem_map_of_mem (List.mem_filter.2 ⟨he, by simp⟩)⟩, rfl⟩

namespace Builder

variable {b : Builder W} {t : OffsetTable W}

/-- The test of an addition keeps the weights of a builder finite. -/
theorem Reached.finite (h : b.Reached) : b.Weighs fun w => Weight.isFinite w := by
  induction h with
  | new nodeCount => exact .new nodeCount
  | undirected _ ih => exact ih
  | added h hadd ih =>
    obtain ⟨haccepts, rfl⟩ := (addEither_eq_ok_iff h.sound).1 hadd
    exact ih.push haccepts.finite

theorem Sound.mem_weights_iff (h : b.Sound) {ws : Array W} (hws : ws ∈ b.weights) {w : W} :
    w ∈ ws ↔ ∃ e ∈ b.stored, e.2.2 = w := by
  have hstored := h.weights_eq
  rw [if_pos (Option.isSome_of_mem hws)] at hstored
  obtain rfl := Option.some.inj (hws.symm.trans hstored)
  rw [List.mem_toArray, List.mem_map]

theorem Sound.forall_weights_iff [Memory.Allocator] (h : b.Sound) (hbuild : b.build = .ok t)
    {weighs : W → Prop} :
    (∀ ws ∈ t.weights, ∀ w ∈ ws, weighs w) ↔ b.Weighs weighs := by
  have hlists := OffsetTable.lists_of_build h hbuild
  have hsome : t.weights.isSome = b.weights.isSome := isSome_weights_of_build h hbuild
  constructor
  · intro hall ws hws w hw
    obtain ⟨ws', hws'⟩ := Option.isSome_iff_exists.1 (hsome.trans (Option.isSome_of_mem hws))
    exact hall ws' hws' w ((hlists.mem_weights_iff hws').2 ((h.mem_weights_iff hws).1 hw))
  · intro hall ws hws w hw
    obtain ⟨ws', hws'⟩ := Option.isSome_iff_exists.1 (hsome.symm.trans (Option.isSome_of_mem hws))
    exact hall ws' hws' w ((h.mem_weights_iff hws').2 ((hlists.mem_weights_iff hws).1 hw))

end Builder

theorem OffsetTable.finite_of_randomGraph [Memory.Allocator] {S : Type} {d : Random.Draws S W}
    (hd : d.Bounded)
    (hfinite : ∀ w, d.Gives w → Weight.isFinite w) {n : UInt64} {degree : Nat} {weighted : Bool}
    {s : S} {t : OffsetTable W} (h : Random.randomGraph d n degree weighted s = .ok t) :
    t.Finite := by
  obtain ⟨b, hsound, hweighs, hbuild⟩ := exists_builder_of_randomGraph hd h
  exact (hsound.forall_weights_iff hbuild).2 fun ws hws w hw => hfinite w (hweighs ws hws w hw)

theorem OffsetTable.finite_of_seededGraph [Memory.Allocator] {n : UInt64} {degree : Nat}
    {seed : UInt64} {weighted : Bool} {t : OffsetTable Float}
    (h : Random.seededGraph n degree seed weighted = .ok t) : t.Finite :=
  finite_of_randomGraph Random.KeyStream.bounded_draws
    (fun _ ⟨s, hs⟩ => hs ▸ Random.isFinite_weight s) h

/-! ## Copied arc lists -/

/-- Storing relationships as they are, one after the other. -/
theorem Builder.Filling.pushAll {n : UInt64} {weighted : Bool} {weighs : W → Prop} {b : Builder W}
    (h : b.Filling n weighted weighs) (hdirected : b.undirected = false)
    (rels : List (NodeId × NodeId × Option W))
    (hrels : ∀ r ∈ rels, r.1.val < n ∧ r.2.1.val < n ∧ r.2.2.isSome = weighted ∧
      ∀ w ∈ r.2.2, weighs w) :
    (rels.foldl (fun b r => b.push r.1 r.2.1 r.2.2) b).Filling n weighted weighs ∧
      (rels.foldl (fun b r => b.push r.1 r.2.1 r.2.2) b).stored =
        b.stored ++ rels.map Builder.weighed := by
  induction rels generalizing b with
  | nil => exact ⟨h, (List.append_nil _).symm⟩
  | cons r rels ih =>
    rw [List.forall_mem_cons] at hrels
    obtain ⟨⟨hsource, htarget, hkind, hweight⟩, hrest⟩ := hrels
    obtain ⟨hfilling, hstored⟩ := ih (h.push hsource htarget hkind hweight)
      (by rwa [Builder.undirected_push]) hrest
    have hagrees : b.Agrees r.2.2 := h.kind.imp_right (·.trans hkind.symm)
    refine ⟨hfilling, ?_⟩
    rw [List.foldl_cons, hstored, h.sound.stored_push (by rwa [h.nodeCount])
      (by rwa [h.nodeCount]) hagrees, Builder.directions, hdirected, List.append_assoc]
    rfl

namespace ArcList

/-- The end points of the arcs are nodes, and the node count is a 64-bit number. -/
structure Sound (g : ArcList W) : Prop where
  nodes : ∀ a ∈ g.arcs, a.1.index < g.nodeCount ∧ a.2.1.index < g.nodeCount
  fits : g.nodeCount < wordLimit

/-- The arcs of a list as a builder is given them. -/
def given (g : ArcList W) (weight : Option (W → W)) : List (NodeId × NodeId × Option W) :=
  g.arcs.toList.map fun a => (a.1, a.2.1, weight.map (· a.2.2))

/-- The weight that a function gives an arc. -/
def Weighs (g : ArcList W) (weight : Option (W → W)) (w : W) : Prop :=
  ∃ weigh ∈ weight, ∃ a ∈ g.arcs, weigh a.2.2 = w

variable {g : ArcList W}

/-- The copy of an arc list is frozen from a builder that holds its arcs. -/
theorem exists_builder_of_toOffsetTable [Memory.Allocator] (h : g.Sound) (weight : Option (W → W)) :
    ∃ b : Builder W, b.Filling g.nodeCount.toUInt64 weight.isSome (g.Weighs weight) ∧
      b.stored = (g.given weight).map Builder.weighed ∧ g.toOffsetTable weight = b.build := by
  have hnode : ∀ id : NodeId, id.index < g.nodeCount → id.val < g.nodeCount.toUInt64 := by
    intro id hid
    rw [UInt64.lt_iff_toNat_lt, toNat_toUInt64 h.fits]
    exact hid
  have hgiven : ∀ r ∈ g.given weight, r.1.val < g.nodeCount.toUInt64 ∧
      r.2.1.val < g.nodeCount.toUInt64 ∧ r.2.2.isSome = weight.isSome ∧
      ∀ w ∈ r.2.2, g.Weighs weight w := by
    intro r hr
    obtain ⟨a, ha, rfl⟩ := List.mem_map.1 hr
    obtain ⟨hsource, htarget⟩ := h.nodes a (Array.mem_toList_iff.1 ha)
    refine ⟨hnode _ hsource, hnode _ htarget, Option.isSome_map, fun w hw => ?_⟩
    obtain ⟨weigh, hweigh, rfl⟩ := Option.map_eq_some_iff.1 hw
    exact ⟨weigh, hweigh, a, Array.mem_toList_iff.1 ha, rfl⟩
  obtain ⟨hfilling, hstored⟩ := (Builder.Filling.new _ _).pushAll rfl _ hgiven
  refine ⟨_, hfilling, hstored, ?_⟩
  rw [toOffsetTable, given, List.foldl_map, ← Array.foldl_toList]

/-- The weights of a copy are finite exactly if the weight of every arc is. -/
theorem finite_toOffsetTable_iff [Memory.Allocator] (h : g.Sound) {weight : Option (W → W)}
    {t : OffsetTable W} (ht : g.toOffsetTable weight = .ok t) :
    t.Finite ↔ ∀ weigh ∈ weight, ∀ a ∈ g.arcs, Weight.isFinite (weigh a.2.2) := by
  obtain ⟨b, hfilling, hstored, hcopy⟩ := exists_builder_of_toOffsetTable h weight
  rw [OffsetTable.Finite, hfilling.sound.forall_weights_iff (hcopy.symm.trans ht)]
  constructor
  · intro hfinite weigh hweigh a ha
    have hentry : Builder.weighed (a.1, a.2.1, weight.map (· a.2.2)) ∈ b.stored := by
      rw [hstored]
      exact List.mem_map_of_mem (List.mem_map_of_mem (Array.mem_toList_iff.2 ha))
    have hsome : b.weights.isSome := by
      refine (hfilling.kind.resolve_left fun hempty => ?_).trans (Option.isSome_of_mem hweigh)
      rw [hfilling.sound.stored_of_empty hempty] at hentry
      cases hentry
    obtain ⟨ws, hws⟩ := Option.isSome_iff_exists.1 hsome
    refine hfinite ws hws _ ((hfilling.sound.mem_weights_iff hws).2 ⟨_, hentry, ?_⟩)
    rw [Builder.weighed, hweigh]
    rfl
  · rintro hfinite ws hws w hw
    obtain ⟨weigh, hweigh, a, ha, rfl⟩ := hfilling.weights ws hws w hw
    exact hfinite weigh hweigh a ha

end ArcList

end Superstep
