import Superstep.Graph.ArcList
import Superstep.Proofs.EdgeList.Grammar
import Superstep.Proofs.EdgeList.Saving
import Superstep.Proofs.Graph.Made
import Superstep.Proofs.Text.Numbers

/-!
# Saving and reading back

The text of a graph is a header and one line for each relationship, and each line says what it was
written for (`reads_text`). So the text describes the rows of the graph (`rowsOf_entries`), and what
is read back is the table of these rows.

A weight has to survive the way through its text (`Weight.Legible`): its text is one field, and is
read as the same weight. For floating-point numbers this is what is assumed of their text.

Results: `parse_text`, the text of a graph is read back as the table of its rows; `parse_save`, the
same through a sink and for the graphs of the library, and a table that the library has made is read
back as it was.
-/

namespace Superstep

/-- A weight that survives the way through its text: it is finite, and its text is a field that is
    read as this weight. -/
structure Weight.Legible {W : Type} [Weight W] (w : W) : Prop where
  finite : Weight.isFinite w
  read : Weight.read? (Weight.digits w) = some w
  ne_nil : Weight.digits w ≠ []
  not_blank : ∀ c ∈ Weight.digits w, Text.isBlank c = false

/-- The text of a floating-point number is one field; whether it is read back as the same number is
    all that is left. -/
theorem Weight.legible_float {x : Float} (hfinite : x.isFinite)
    (hread : Decimal.readFloat? (Decimal.floatDigits x) = some x) : Weight.Legible x where
  finite := hfinite
  read := hread
  ne_nil hnil := by
    change Decimal.floatDigits x = [] at hnil
    rw [hnil, Decimal.readFloat?_nil] at hread
    cases hread
  not_blank c hc := Decimal.isBlank_of_mem_floatDigits hc

namespace EdgeList

variable {W : Type} [Weight W]

/-! ## The lines of a graph -/

/-- The relationships of a graph as the lines of its text give them. -/
def entriesOf (g : Graph W) : List (Entry W) :=
  g.nodes.flatMap fun node => (g.relationships node).map fun r =>
    ⟨node, r.1, if g.isWeighted then some r.2 else none⟩

theorem flatMap_range_single {α : Type} {n i : Nat} (h : i < n) (xs : List α) :
    ((List.range n).flatMap fun j => if j = i then xs else []) = xs := by
  induction n with
  | zero => omega
  | succ n ih =>
    rw [List.range_succ, List.flatMap_append, List.flatMap_singleton]
    by_cases hi : n = i
    · have hnil : ((List.range n).flatMap fun j => if j = i then xs else []) = [] := by
        rw [List.flatMap_eq_nil_iff]
        intro j hj
        rw [if_neg (by have := List.mem_range.1 hj; omega)]
      rw [hnil, if_pos hi, List.nil_append]
    · rw [ih (by omega), if_neg hi, List.append_nil]

omit [Weight W] in
theorem filter_entriesOf (g : Graph W) {i : Nat} (h : i < g.nodeCount.toNat) :
    ((entriesOf g).filter fun e => e.source.index = i) =
      (g.relationships (.ofIndex i)).map fun r =>
        ⟨.ofIndex i, r.1, if g.isWeighted then some r.2 else none⟩ := by
  rw [entriesOf, Graph.nodes, List.flatMap_map, List.filter_flatMap]
  refine Eq.trans (List.flatMap_congr fun j hj => ?_) (flatMap_range_single h _)
  have hj : (NodeId.ofIndex j).index = j :=
    NodeId.index_ofIndex (Nat.lt_trans (List.mem_range.1 hj) (toNat_lt_wordLimit _))
  rw [List.filter_map]
  by_cases hji : j = i
  · subst hji
    simp [Function.comp_def, hj]
  · simp [Function.comp_def, hj, hji]

/-- The header line, without its line break. -/
def headerLine (n : UInt64) : List Char := "# nodes: ".toList ++ Decimal.digits n.toNat

/-- The line of a relationship, without its line break. -/
def entryLine (e : Entry W) : List Char :=
  e.source.digits ++ ' ' :: e.target.digits ++
    match e.weight with
    | some w => ' ' :: Weight.digits w
    | none => []

theorem text_eq (g : Graph W) :
    text g = headerLine g.nodeCount ++
      '\n' :: (entriesOf g).flatMap fun e => entryLine e ++ ['\n'] := by
  have hline : ∀ node (r : NodeId × W), (entryParts g.isWeighted node r.1 r.2).flatten =
      entryLine ⟨node, r.1, if g.isWeighted then some r.2 else none⟩ ++ ['\n'] := fun node r => by
    rw [flatten_entryParts, entryLine]
    cases g.isWeighted <;> simp
  have hnodes : (g.nodes.flatMap (nodeParts g)).flatten =
      (entriesOf g).flatMap fun e => entryLine e ++ ['\n'] := by
    simp only [entriesOf, nodeParts, List.flatten_eq_flatMap, List.flatMap_assoc, List.flatMap_map,
      ← hline]
  have hheader : (headerParts g.nodeCount).flatten = headerLine g.nodeCount ++ ['\n'] :=
    flatten_headerParts _
  rw [text, List.flatten_append, hnodes, hheader, List.append_assoc, List.singleton_append]

/-- Lines that are written one after the other are the lines of the whole. -/
theorem lines_flatMap {α : Type} (line : α → List Char) {xs : List α}
    (h : ∀ x ∈ xs, '\n' ∉ line x) :
    Text.lines (xs.flatMap fun x => line x ++ ['\n']) = xs.map line ++ [[]] := by
  induction xs with
  | nil => rfl
  | cons x xs ih =>
    rw [List.forall_mem_cons] at h
    rw [List.flatMap_cons, List.append_assoc, List.singleton_append, Text.lines_append_cons,
      Text.lines_of_not_mem h.1, ih h.2]
    rfl

/-! ## What the lines say -/

theorem ne_lineFeed {c : Char} (h : Text.isBlank c = false) : c ≠ '\n' := by
  rintro rfl
  exact absurd h (by decide)

theorem lineFeed_not_mem_digits (n : Nat) : '\n' ∉ Decimal.digits n :=
  fun h => ne_lineFeed (Decimal.isBlank_of_mem_digits h) rfl

theorem lineFeed_not_mem_headerLine (n : UInt64) : '\n' ∉ headerLine n := by
  unfold headerLine
  rw [List.mem_append]
  exact not_or.2 ⟨by decide, lineFeed_not_mem_digits _⟩

theorem lineFeed_not_mem_entryLine {e : Entry W}
    (hw : ∀ w, e.weight = some w → Weight.Legible w) : '\n' ∉ entryLine e := by
  obtain ⟨source, target, weight⟩ := e
  unfold entryLine
  simp only [List.mem_append, List.mem_cons, not_or]
  refine ⟨⟨lineFeed_not_mem_digits _, by decide, lineFeed_not_mem_digits _⟩, ?_⟩
  cases weight with
  | none => exact List.not_mem_nil
  | some w =>
    rw [List.mem_cons, not_or]
    exact ⟨by decide, fun h => ne_lineFeed ((hw w rfl).not_blank _ h) rfl⟩

theorem isId_digits {id : NodeId} (h : id.index < wordLimit - 1) : IsId id.digits id :=
  ⟨Decimal.denotes_digits _, h⟩

theorem says_headerLine (n : UInt64) : (Line.nodeCount n : Line W).Says (headerLine n) := by
  have hne : Decimal.digits n.toNat ≠ [] := Nat.toDigits_ne_nil
  have hblank : ∀ c ∈ Decimal.digits n.toNat, Text.isBlank c = false :=
    fun c hc => Decimal.isBlank_of_mem_digits hc
  have hcomment : IsComment (headerLine n) (" nodes: ".toList ++ Decimal.digits n.toNat) :=
    ⟨'#', .inl rfl, Text.trim_cons_append (by decide) hne hblank " nodes: ".toList⟩
  have hheader : Text.trim (" nodes: ".toList ++ Decimal.digits n.toNat) =
      header ++ ' ' :: Decimal.digits n.toNat := by
    have hspace : " nodes: ".toList = ' ' :: "nodes: ".toList := rfl
    rw [hspace, List.cons_append, Text.trim_cons_of_blank (by decide)]
    exact Text.trim_cons_append (by decide) hne hblank "odes: ".toList
  refine .header hcomment hheader ?_
  rw [Text.trim_cons_of_blank (by decide), Text.trim_of_not_blank hblank]
  exact Decimal.denotes_digits _

theorem says_of_fields {e : Entry W} {line : List Char} {d : Char} (hd : d.isDigit)
    (hhead : line.head? = some d) (hfields : e.Says (Text.fields line)) :
    (Line.entry e).Says line := by
  obtain ⟨ds, rfl⟩ := List.head?_eq_some_iff.1 hhead
  refine .entry ?_ hfields
  rintro comment ⟨mark, hmark, htrim⟩
  have hfirst : (Text.trim (d :: ds)).head? = some d :=
    Text.head?_trim (Decimal.IsVisible.not_blank (.inl hd))
  rw [htrim] at hfirst
  obtain rfl := Option.some.inj hfirst
  rcases hmark with rfl | rfl <;> exact absurd hd (by decide)

theorem fields_digits (id : NodeId) : Text.fields id.digits = [id.digits] :=
  Text.fields_of_not_blank Nat.toDigits_ne_nil fun _ hc => Decimal.isBlank_of_mem_digits hc

/-- The line of a relationship has the fields that were written. -/
theorem fields_entryLine {e : Entry W} (hw : ∀ w, e.weight = some w → Weight.Legible w) :
    Text.fields (entryLine e) =
      e.source.digits :: e.target.digits :: (e.weight.map Weight.digits).toList := by
  obtain ⟨source, target, weight⟩ := e
  unfold entryLine
  cases weight with
  | none =>
    rw [List.append_nil, Text.fields_append_cons (by decide), fields_digits, fields_digits]
    rfl
  | some w =>
    obtain ⟨-, -, hne, hblank⟩ := hw w rfl
    dsimp only
    rw [List.append_assoc, List.cons_append, Text.fields_append_cons (by decide),
      Text.fields_append_cons (by decide), fields_digits, fields_digits,
      Text.fields_of_not_blank hne hblank]
    rfl

/-- The line of a relationship gives the relationship. -/
theorem says_entryLine {e : Entry W} (hs : e.source.index < wordLimit - 1)
    (ht : e.target.index < wordLimit - 1) (hw : ∀ w, e.weight = some w → Weight.Legible w) :
    (Line.entry e).Says (entryLine e) := by
  have hne : e.source.digits ≠ [] := Nat.toDigits_ne_nil
  obtain ⟨d, ds, hdigits⟩ := List.exists_cons_of_ne_nil hne
  have hd : d.isDigit := by
    refine Decimal.isDigit_of_mem_digits (n := e.source.index) ?_
    rw [← NodeId.digits, hdigits]
    exact List.mem_cons_self
  have hhead : (entryLine e).head? = some d := by
    rw [entryLine, hdigits]
    rfl
  refine says_of_fields hd hhead ?_
  rw [fields_entryLine hw]
  obtain ⟨source, target, weight⟩ := e
  cases weight with
  | none => exact .unweighted (isId_digits hs) (isId_digits ht)
  | some w => exact .weighted (isId_digits hs) (isId_digits ht) (hw w rfl).read

/-- What the lines of the text of a graph say. What follows the last line break is a blank line. -/
def saidOf (g : Graph W) : List (Line W) :=
  .nodeCount g.nodeCount :: ((entriesOf g).map .entry ++ [.nothing])

omit [Weight W] in
theorem entries_saidOf (g : Graph W) : entries (saidOf g) = entriesOf g := by
  have hentry : Line.entry? ∘ Line.entry = (some : Entry W → Option (Entry W)) := rfl
  rw [saidOf, entries, List.filterMap_cons_none rfl, List.filterMap_append, List.filterMap_map,
    hentry, List.filterMap_some]
  exact List.append_nil _

omit [Weight W] in
theorem nodesOf_saidOf (g : Graph W) : nodesOf (saidOf g) = g.nodeCount.toNat := by
  have hentry : Line.header? ∘ Line.entry = fun _ : Entry W => none := rfl
  have hheaders : (saidOf g).filterMap Line.header? = [g.nodeCount] := by
    refine congrArg (g.nodeCount :: ·) ?_
    rw [List.filterMap_append, List.filterMap_map, hentry, List.filterMap_none]
    rfl
  rw [nodesOf, hheaders]
  rfl

/-- A graph that can be written and read back: its targets are nodes, its weights survive, and the
    arrays of its table fit. Without weights of their own, relationships have unit weight. -/
structure Savable [Memory.Allocator] (g : Graph W) : Prop where
  targets : ∀ node ∈ g.nodes, ∀ r ∈ g.relationships node, r.1.val < g.nodeCount
  legible : g.isWeighted → ∀ node ∈ g.nodes, ∀ r ∈ g.relationships node, Weight.Legible r.2
  units : g.isWeighted = false → ∀ node ∈ g.nodes, ∀ r ∈ g.relationships node, r.2 = Weight.unit
  fits : Builder.Allocatable g.nodeCount.toNat (g.nodes.flatMap g.relationships).length

omit [Weight W] in
theorem length_entriesOf (g : Graph W) :
    (entriesOf g).length = (g.nodes.flatMap g.relationships).length := by
  simp [entriesOf, List.length_flatMap]

namespace Savable

variable [Memory.Allocator] {g : Graph W} (h : Savable g)
include h

theorem mem_entriesOf {e : Entry W} (he : e ∈ entriesOf g) :
    e.source.val < g.nodeCount ∧ e.target.val < g.nodeCount ∧
      (∀ w, e.weight = some w → Weight.Legible w) ∧ e.weight.isSome = g.isWeighted := by
  obtain ⟨node, hnode, he⟩ := List.mem_flatMap.1 he
  obtain ⟨r, hr, rfl⟩ := List.mem_map.1 he
  refine ⟨?_, h.targets node hnode r hr, ?_, ?_⟩
  · exact UInt64.lt_iff_toNat_lt.2 (Graph.mem_nodes_iff.1 hnode)
  · intro w hw
    cases hweighted : g.isWeighted with
    | true =>
      obtain rfl : r.2 = w := by simpa [hweighted] using hw
      exact h.legible hweighted node hnode r hr
    | false => simp [hweighted] at hw
  · cases g.isWeighted <;> rfl

/-- The text of a graph says what the graph is. -/
theorem reads_text : Reads (text g) (saidOf g) := by
  have hlimit : g.nodeCount.toNat ≤ wordLimit - 1 := by
    have := Memory.le_addressSpace_of_fits h.fits.1
    simp only [Memory.wordBytes, Memory.addressSpace, wordLimit] at *
    omega
  have hid : ∀ id : NodeId, id.val < g.nodeCount → id.index < wordLimit - 1 := fun id hid =>
    Nat.lt_of_lt_of_le (UInt64.lt_iff_toNat_lt.1 hid) hlimit
  rw [Reads, text_eq, Text.lines_append_cons,
    Text.lines_of_not_mem (lineFeed_not_mem_headerLine _),
    lines_flatMap _ fun e he => lineFeed_not_mem_entryLine (h.mem_entriesOf he).2.2.1,
    List.singleton_append, saidOf]
  refine .cons (says_headerLine _) (List.rel_append ?_ (.cons (.blank (by simp)) .nil))
  rw [List.forall₂_map_left_iff, List.forall₂_map_right_iff, List.forall₂_same]
  intro e he
  obtain ⟨hs, ht, hlegible, -⟩ := h.mem_entriesOf he
  exact says_entryLine (hid _ hs) (hid _ ht) hlegible

theorem valid : Valid (saidOf g) where
  nodes id hid := by
    obtain ⟨e, he, hid⟩ := mem_ids_iff.1 hid
    rw [entries_saidOf] at he
    obtain ⟨hs, ht, -⟩ := h.mem_entriesOf he
    rw [nodesOf_saidOf]
    rcases hid with rfl | rfl
    exacts [UInt64.lt_iff_toNat_lt.1 hs, UInt64.lt_iff_toNat_lt.1 ht]
  finite e he w hw := by
    rw [entries_saidOf] at he
    exact ((h.mem_entriesOf he).2.2.1 w hw).finite
  uniform := by
    rw [entries_saidOf]
    cases hweighted : g.isWeighted with
    | true => exact .inl fun e he => (h.mem_entriesOf he).2.2.2.trans hweighted
    | false =>
      exact .inr fun e he => by simpa [hweighted] using (h.mem_entriesOf he).2.2.2

/-- The rows that the text describes are those of the graph. -/
theorem rowsOf_entries :
    Builder.rowsOf g.nodeCount.toNat ((entriesOf g).map fun e => Builder.weighed e.arc) =
      g.nodes.map g.relationships := by
  refine List.ext_getElem (by simp [Builder.length_rowsOf, Graph.nodes]) fun i hi _ => ?_
  have hlt : i < g.nodeCount.toNat := by rwa [Builder.length_rowsOf] at hi
  have hmem : NodeId.ofIndex i ∈ g.nodes := List.mem_map_of_mem (List.mem_range.2 hlt)
  have hfilter : ((fun e : NodeId × NodeId × W => decide (e.1.index = i)) ∘
      fun e : Entry W => Builder.weighed e.arc) = fun e => decide (e.source.index = i) := rfl
  rw [Builder.getElem_rowsOf, List.filter_map, List.map_map, hfilter, filter_entriesOf g hlt,
    List.map_map, List.getElem_map]
  have hnode : ∀ _ : i < g.nodes.length, g.nodes[i] = .ofIndex i := by simp [Graph.nodes]
  rw [hnode]
  refine (List.map_congr_left fun r hr => ?_).trans (List.map_id _)
  cases hweighted : g.isWeighted with
  | true => simp [Builder.weighed, Entry.arc]
  | false => simp [Builder.weighed, Entry.arc, ← h.units hweighted _ hmem r hr]

/-- The text is weighted if the graph is and has a relationship. -/
theorem any_entriesOf :
    ((entriesOf g).any fun e => e.weight.isSome) ↔
      g.isWeighted ∧ ∃ node ∈ g.nodes, g.relationships node ≠ [] := by
  rw [List.any_eq_true]
  constructor
  · rintro ⟨e, he, hsome⟩
    refine ⟨(h.mem_entriesOf he).2.2.2 ▸ hsome, ?_⟩
    obtain ⟨node, hnode, he⟩ := List.mem_flatMap.1 he
    obtain ⟨r, hr, -⟩ := List.mem_map.1 he
    exact ⟨node, hnode, List.ne_nil_of_mem hr⟩
  · rintro ⟨hweighted, node, hnode, hne⟩
    obtain ⟨r, hr⟩ := List.exists_mem_of_ne_nil _ hne
    have he : (⟨node, r.1, if g.isWeighted then some r.2 else none⟩ : Entry W) ∈ entriesOf g :=
      List.mem_flatMap.2 ⟨node, hnode, List.mem_map.2 ⟨r, hr, rfl⟩⟩
    exact ⟨_, he, (h.mem_entriesOf he).2.2.2.trans hweighted⟩

/-- The text of a graph is read back as the table of the rows of the graph. -/
theorem parse_text :
    parse (text g) false =
      .ok (OffsetTable.ofRows ((entriesOf g).any fun e => e.weight.isSome)
        (g.nodes.map g.relationships)) := by
  refine parse_eq_ok_iff.2 ⟨saidOf g, h.reads_text, h.valid, ?_, ?_⟩
  · rw [nodesOf_saidOf, entries_saidOf, length_entriesOf]
    exact h.fits
  · rw [tableOf, nodesOf_saidOf, entries_saidOf, h.rowsOf_entries]

/-- What is read of a node of the table that is read back. -/
theorem relationships_ofRows {node : NodeId} (hnode : node ∈ g.nodes) :
    (OffsetTable.ofRows ((entriesOf g).any fun e => e.weight.isSome)
      (g.nodes.map g.relationships)).relationships node = g.relationships node := by
  have hlt : node.index < (g.nodes.map g.relationships).length := by
    simpa [Graph.nodes] using Graph.mem_nodes_iff.1 hnode
  have hrow : (g.nodes.map g.relationships)[node.index] = g.relationships node := by
    simp [Graph.nodes]
  rw [OffsetTable.relationships_ofRows hlt, hrow]
  intro hnone r hr
  rw [hrow] at hr
  refine h.units ?_ node hnode r hr
  by_contra hweighted
  have hany := h.any_entriesOf.2 ⟨by simpa using hweighted, node, hnode, List.ne_nil_of_mem hr⟩
  simp [hnone] at hany

end Savable

/-! ## The graphs of the library -/

/-- The two kinds of graphs that the library stores. -/
inductive Stored : Graph W → Prop where
  | table (t : OffsetTable W) : Stored t.toGraph
  | arcs (a : ArcList W) : Stored a.toGraph

/-- Without weights of their own, the relationships of a stored graph have unit weight. -/
theorem Stored.units {g : Graph W} (h : Stored g) (hweighted : g.isWeighted = false)
    (node : NodeId) : ∀ r ∈ g.relationships node, r.2 = Weight.unit := by
  cases h with
  | arcs a => cases hweighted
  | table t =>
    have hnone : t.weights = none := by simpa [OffsetTable.toGraph] using hweighted
    intro r hr
    simp only [OffsetTable.toGraph, OffsetTable.relationships, hnone] at hr
    split at hr
    · next h => cases h
    · split at hr
      · obtain ⟨target, -, rfl⟩ := List.mem_map.1 hr
        rfl
      · cases hr
    · cases hr

theorem ofRows_of_lists [Memory.Allocator] {t : OffsetTable W} {n : UInt64}
    {es : List (NodeId × NodeId × W)} (hlists : t.Lists n es) (h : Savable t.toGraph) :
    OffsetTable.ofRows ((entriesOf t.toGraph).any fun e => e.weight.isSome)
      (t.toGraph.nodes.map t.toGraph.relationships) = t := by
  have hweighted : ((entriesOf t.toGraph).any fun e => e.weight.isSome) = t.weights.isSome := by
    rw [Bool.eq_iff_iff, h.any_entriesOf]
    refine and_iff_left_of_imp fun hsome => ?_
    obtain ⟨node, hnode, hne⟩ := hlists.exists_relationship hsome
    exact ⟨node, Graph.mem_nodes_iff.2 (by rwa [hlists.nodeCount_toGraph]), hne⟩
  rw [hweighted, hlists.map_relationships, ← hlists.table]

theorem ofRows_toGraph [Memory.Allocator] {t : OffsetTable W} (hmade : t.Made)
    (h : Savable t.toGraph) :
    OffsetTable.ofRows ((entriesOf t.toGraph).any fun e => e.weight.isSome)
      (t.toGraph.nodes.map t.toGraph.relationships) = t := by
  obtain ⟨n, es, hlists⟩ := hmade.exists_lists
  exact ofRows_of_lists hlists h

/-- Five nodes, two weighted relationships, and a last node without any. -/
def fiveNodes : OffsetTable Float where
  offsets := #[0, 1, 1, 1, 2, 2]
  targets := #[⟨1⟩, ⟨2⟩]
  weights := some #[1.5, 4.0]

/-- A graph is written to a sink without a limit, and what the sink then holds is read. The graph
    can be read throughout, its targets are nodes, its weights are finite, and its arrays fit; that
    the text of each of its weights is read back as the weight is assumed. Then the writing
    succeeds, and so does the reading: the result has the nodes of the graph and their
    relationships, in the same order and with the same weights, and it is weighted exactly if the
    graph is and has a relationship. A table that the library has made is read back as it was. -/
theorem parse_save [Memory.Allocator] {g : Graph Float} (hstored : Stored g)
    (hread : ∀ node ∈ g.nodes, g.fault? node = none)
    (htargets : ∀ node ∈ g.nodes, ∀ r ∈ g.relationships node, r.1.val < g.nodeCount)
    (hfinite : g.isWeighted → ∀ node ∈ g.nodes, ∀ r ∈ g.relationships node, r.2.isFinite)
    (htext : ∀ node ∈ g.nodes, ∀ r ∈ g.relationships node, r.2.isFinite →
      Decimal.readFloat? (Decimal.floatDigits r.2) = some r.2)
    (hfits : Builder.Allocatable g.nodeCount.toNat (g.nodes.flatMap g.relationships).length) :
    (save g none).2 = .ok () ∧
      ∃ t : OffsetTable Float,
        parseBytes (Text.utf8 (save g none).1.toList) false = .ok t ∧
        t.nodeCount = g.nodeCount.toNat ∧
        (∀ node ∈ g.nodes, t.fault? node = none ∧ t.relationships node = g.relationships node) ∧
        (t.weights.isSome ↔ g.isWeighted ∧ ∃ node ∈ g.nodes, g.relationships node ≠ []) ∧
        ∀ made : OffsetTable Float, made.Made → g = made.toGraph → t = made := by
  have h : Savable g :=
    { targets := htargets
      legible := fun hw node hnode r hr =>
        have hfin := hfinite hw node hnode r hr
        Weight.legible_float hfin (htext node hnode r hr hfin)
      units := fun hw node _ => hstored.units hw node
      fits := hfits }
  obtain ⟨hheld, hok⟩ := save_none hread
  refine ⟨hok, _, (by rw [parseBytes_utf8, hheld, h.parse_text] : _ = Except.ok _), ?_, ?_, ?_, ?_⟩
  · rw [OffsetTable.nodeCount_ofRows, List.length_map, Graph.nodes, List.length_map,
      List.length_range]
  · intro node hnode
    exact ⟨OffsetTable.fault?_ofRows _ _ node, h.relationships_ofRows hnode⟩
  · rw [OffsetTable.isSome_weights_ofRows, h.any_entriesOf]
  · rintro made hmade rfl
    exact ofRows_toGraph hmade h

theorem parse_save_fiveNodes :
    parseBytes (Text.utf8 (save fiveNodes.toGraph none).1.toList) false = .ok fiveNodes := by
  have hlisted : OffsetTable.ofRelationships 5
      [(⟨0⟩, ⟨1⟩, some 1.5), (⟨3⟩, ⟨2⟩, some 4.0)] = .ok fiveNodes := by
    decide +kernel
  obtain ⟨-, t, hparse, -, -, -, hequal⟩ := parse_save (.table fiveNodes) (by decide +kernel)
    (by decide +kernel) (by decide +kernel) (by decide +kernel) ⟨by decide, by decide +kernel⟩
  rw [hparse, hequal fiveNodes (.listed hlisted) rfl]

end EdgeList

end Superstep
