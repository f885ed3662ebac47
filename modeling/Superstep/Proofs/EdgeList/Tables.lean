import Superstep.Proofs.EdgeList.RoundTrip
import Superstep.Proofs.Graph.Finite
import Superstep.Proofs.Graph.Undirected

/-!
# Tables that are saved

A table that a builder has been frozen into can be written, and what is written is read as the
table again, or as the table with the reverse of every relationship added: the lines of the text
give the relationships in the order in which `OffsetTable.undirected` adds them
(`map_arc_entriesOf`), so that both add the same sequence to the same builder, and agree also where
the arrays do not fit (`parse_text_undirected`).

All this needs that the weights survive the way through their text. What is read has finite weights,
whatever the text (`finite_of_parseBytes`), so that no table with an infinite weight is ever read
back.

Results: `parse_text_of_build` and `parse_text_undirected`; `copied_table_survives`, a copied arc
list is read back exactly if the weight of every arc is finite.
-/

namespace Superstep

variable {W : Type} [Weight W]

/-! ## Reading -/

/-- Adding a sequence of relationships is adding one after the other. -/
theorem Builder.Reached.addAll {b b' : Builder W} (h : b.Reached)
    {rels : List (NodeId × NodeId × Option W)} (hall : b.addAll rels = .ok b') : b'.Reached := by
  induction rels generalizing b with
  | nil =>
    obtain rfl := Except.ok.inj hall
    exact h
  | cons r rels ih =>
    obtain ⟨source, target, weight⟩ := r
    obtain ⟨b₁, hadd, hrest⟩ := exists_of_bind_eq_ok hall
    exact ih (h.added hadd) hrest

namespace EdgeList

theorem finite_of_parseBytes [Memory.Allocator] {bytes : List UInt8} {undirected : Bool}
    {t : OffsetTable W} (h : parseBytes bytes undirected = .ok t) : t.Finite := by
  obtain ⟨c, -, b, hall, hbuild⟩ := parseBytes_eq_ok_iff.1 h
  have hreached : b.Reached := by
    cases undirected with
    | false => exact (Builder.Reached.new c.nodeCount).addAll hall
    | true => exact (Builder.Reached.new c.nodeCount).undirected.addAll hall
  exact (hreached.sound.forall_weights_iff hbuild).2 hreached.finite

theorem Contents.toOffsetTable_eq_build [Memory.Allocator] {c : Contents W} {undirected : Bool}
    {b : Builder W} (h : (if undirected then (Builder.new c.nodeCount).asUndirected
      else Builder.new c.nodeCount).addAll (c.entries.toList.map fun x => x.2.arc) = .ok b) :
    c.toOffsetTable undirected = b.build := by
  have hentries : Contents.addEntries (if undirected then (Builder.new c.nodeCount).asUndirected
      else Builder.new c.nodeCount) c.entries.toList = .ok b := Contents.addEntries_eq_ok_iff.2 h
  unfold Contents.toOffsetTable
  dsimp only
  rw [hentries]
  rfl

theorem Savable.exists_contents [Memory.Allocator] {g : Graph W} (h : Savable g) :
    ∃ c : Contents W, Contents.empty.readLines 1 ((Text.lines (text g)).map some) = .ok c ∧
      c.nodeCount = g.nodeCount ∧
      (c.entries.toList.map fun x => x.2.arc) = (entriesOf g).map Entry.arc := by
  obtain ⟨hcount, hentries⟩ := Contents.of_takeAll 1 h.reads_text.ids_lt
  refine ⟨_, Contents.readLines_eq_ok_iff.2 ⟨saidOf g, h.reads_text, rfl⟩, ?_, ?_⟩
  · rw [← UInt64.toNat_inj, hcount, nodesOf_saidOf]
  · rw [← entries_saidOf g, ← hentries, List.map_map]
    rfl

/-! ## Tables -/

variable {t : OffsetTable W}

/-- A frozen table can be written and read back if its weights survive. -/
theorem Savable.of_build [Memory.Allocator] {b : Builder W} (hsound : b.Sound)
    (hbuild : b.build = .ok t)
    (hlegible : ∀ ws ∈ t.weights, ∀ w ∈ ws, Weight.Legible w) : Savable t.toGraph := by
  have hlists := OffsetTable.lists_of_build hsound hbuild
  have hmem : ∀ {node : NodeId} {r : NodeId × W}, r ∈ t.relationships node →
      ∃ e ∈ b.stored, e.2 = r := by
    intro node r hr
    rw [hlists.relationships_eq_filter] at hr
    obtain ⟨e, he, rfl⟩ := List.mem_map.1 hr
    exact ⟨e, (List.mem_filter.1 he).1, rfl⟩
  refine ⟨fun node _ r hr => ?_, fun hweighted node _ r hr => ?_,
    fun hunweighted node _ => Stored.units (.table t) hunweighted node, ?_⟩
  · obtain ⟨e, he, rfl⟩ := hmem hr
    rw [hlists.nodeCount_toGraph]
    exact (hlists.nodes e he).2
  · obtain ⟨e, he, rfl⟩ := hmem hr
    obtain ⟨ws, hws⟩ := Option.isSome_iff_exists.1 hweighted
    exact hlegible ws hws _ ((hlists.mem_weights_iff hws).2 ⟨e, he, rfl⟩)
  · have hlength : (t.toGraph.nodes.flatMap t.toGraph.relationships).length =
        b.relationships.size := by
      rw [List.flatMap_def, hlists.map_relationships,
        Builder.length_flatten_rowsOf fun e he => UInt64.lt_iff_toNat_lt.1 (hlists.nodes e he).1,
        hsound.relationships_eq]
      simp
    rw [hlength, hlists.nodeCount_toGraph]
    exact Builder.allocatable_of_build hbuild

theorem parse_text_of_build [Memory.Allocator] {b : Builder W} (hsound : b.Sound)
    (hbuild : b.build = .ok t) (h : Savable t.toGraph) : parse (text t.toGraph) false = .ok t := by
  rw [h.parse_text, ofRows_of_lists (OffsetTable.lists_of_build hsound hbuild) h]

/-- The lines give the relationships as they are read of the table. -/
theorem map_arc_entriesOf (hcount : t.nodeCount < wordLimit) :
    (entriesOf t.toGraph).map Entry.arc = t.arcs := by
  have hnodes : t.toGraph.nodes = (List.range t.nodeCount).map NodeId.ofIndex := by
    rw [Graph.nodes]
    change (List.range t.nodeCount.toUInt64.toNat).map _ = _
    rw [toNat_toUInt64 hcount]
  rw [entriesOf, hnodes, List.flatMap_map, List.map_flatMap]
  refine List.flatMap_congr fun i _ => ?_
  rw [List.map_map]
  rfl

/-- The text of a table, read as an undirected graph, is the table with every relationship
    reversed. Where the arrays of that do not fit, both fail in the same way. -/
theorem parse_text_undirected [Memory.Allocator] (hcount : t.nodeCount < wordLimit)
    (h : Savable t.toGraph) :
    parse (text t.toGraph) true = t.undirected := by
  obtain ⟨c, hlines, hnodes, harcs⟩ := h.exists_contents
  rw [map_arc_entriesOf hcount] at harcs
  have hacceptable : Builder.Acceptable c.nodeCount t.arcs := by
    rw [← map_arc_entriesOf hcount, ← entries_saidOf]
    exact (acceptable_iff (by rw [hnodes, nodesOf_saidOf])).2 h.valid
  obtain ⟨b, hall⟩ := (Builder.addAll_isOk_iff_acceptable
    (Builder.Sound.new c.nodeCount).asUndirected rfl).2 hacceptable
  have htable : c.toOffsetTable true = b.build :=
    Contents.toOffsetTable_eq_build (by rw [harcs, if_pos rfl, hall])
  have hreversed : (Builder.new t.nodeCount.toUInt64).asUndirected.addAll t.arcs = .ok b := by
    rw [hnodes] at hall
    exact hall
  rw [parse, parseLines, hlines, OffsetTable.undirected, hreversed]
  exact htable

/-! ## Copied arc lists -/

/-- An arc list is copied into a table, with the weight that a function gives each arc, or without
    weights; that the text of a finite weight is read back as the weight is assumed. If the copy
    succeeds, its weights are finite exactly if the weight of every arc is. It can always be
    written. What is written is read back as the copy if its weights are finite, and else is not. -/
theorem copied_table_survives [Memory.Allocator] {g : ArcList Float} (h : g.Sound)
    {weight : Option (Float → Float)} {t : OffsetTable Float} (ht : g.toOffsetTable weight = .ok t)
    (htext : ∀ weigh ∈ weight, ∀ a ∈ g.arcs, (weigh a.2.2).isFinite →
      Decimal.readFloat? (Decimal.floatDigits (weigh a.2.2)) = some (weigh a.2.2)) :
    (t.Finite ↔ ∀ weigh ∈ weight, ∀ a ∈ g.arcs, (weigh a.2.2).isFinite) ∧
      (save t.toGraph none).2 = .ok () ∧
      (parseBytes (Text.utf8 (save t.toGraph none).1.toList) false = .ok t ↔ t.Finite) := by
  obtain ⟨b, hfilling, -, hcopy⟩ := ArcList.exists_builder_of_toOffsetTable h weight
  have hbuild : b.build = .ok t := hcopy.symm.trans ht
  have hlists := OffsetTable.lists_of_build hfilling.sound hbuild
  have hreadable : ∀ node ∈ t.toGraph.nodes, t.toGraph.fault? node = none :=
    fun node _ => hlists.fault?_eq_none node
  obtain ⟨hheld, hok⟩ := save_none hreadable
  refine ⟨ArcList.finite_toOffsetTable_iff h ht, hok, finite_of_parseBytes, fun hfinite => ?_⟩
  have hgiven := (hfilling.sound.forall_weights_iff hbuild).2 hfilling.weights
  have hlegible : ∀ ws ∈ t.weights, ∀ w ∈ ws, Weight.Legible w := by
    intro ws hws w hw
    obtain ⟨weigh, hweigh, a, ha, rfl⟩ := hgiven ws hws w hw
    exact Weight.legible_float (hfinite ws hws _ hw) (htext weigh hweigh a ha (hfinite ws hws _ hw))
  rw [hheld, parseBytes_utf8]
  exact parse_text_of_build hfilling.sound hbuild (.of_build hfilling.sound hbuild hlegible)

/-- Two nodes that are joined by an arc without an end. -/
def endless : ArcList Float := ⟨2, #[(⟨0⟩, ⟨1⟩, Float.ofBits 0x7ff0000000000000)]⟩

/-- The copy of `endless`. -/
def endlessTable : OffsetTable Float :=
  ⟨#[0, 1, 1], #[⟨1⟩], some #[Float.ofBits 0x7ff0000000000000]⟩

/-- An infinite weight is copied, and the text of the copy is refused. -/
theorem endless_copy_lost :
    endless.Sound ∧ endless.toOffsetTable (some id) = .ok endlessTable ∧ ¬ endlessTable.Finite ∧
      parseBytes (Text.utf8 (save endlessTable.toGraph none).1.toList) false =
        (.error (.parse 2 (.refused (.invalid (.weightNotFinite ⟨0⟩ ⟨1⟩ "inf")))) :
          Except GraphError (OffsetTable Float)) :=
  ⟨⟨by decide, by decide⟩, by decide +kernel⟩

/-- Three nodes; the weight of an arc is twice what is stored. -/
def doubled : ArcList Float := ⟨3, #[(⟨2⟩, ⟨0⟩, 0.75), (⟨0⟩, ⟨1⟩, 2.0)]⟩

theorem copied_table_survives_doubled :
    ∃ t : OffsetTable Float, doubled.toOffsetTable (some (· * 2.0)) = .ok t ∧
      parseBytes (Text.utf8 (save t.toGraph none).1.toList) false = .ok t := by
  have hcopy : doubled.toOffsetTable (some (· * 2.0)) =
      .ok ⟨#[0, 1, 1, 2], #[⟨1⟩, ⟨0⟩], some #[4.0, 1.5]⟩ := by decide +kernel
  obtain ⟨hfinite, -, hread⟩ := copied_table_survives (g := doubled) ⟨by decide, by decide⟩ hcopy
    (by decide +kernel)
  exact ⟨_, hcopy, hread.2 (hfinite.2 (by decide +kernel))⟩

end EdgeList

end Superstep
