import Superstep.Proofs.Graph.Degrees
import Superstep.Proofs.Graph.Freezing

/-!
# Reading a graph through its accessors

An offset table is read in several ways: as a list of targets, as a list of weights, by its degree,
by looking for one weight, and by a visitor that may stop. The lists are cut out at once, while the
visitor of a weighted graph is led from position to position. Here these ways are compared.

`visit?` and `degree?` are the loops and sums of machine words that a reader carries out. `none` is
a position outside of an array or a number that is no word. `CutOff` says on which of the
relationships a visitor is called.

Results:
* `visit?_eq`: of any table, also of a damaged one, the loops read what `Graph.visit` reads, and
  break off where it meets a fault.
* `visitAll_recording`: a visitor is called on the shortest part that ends with a refusal.
* `accessors_agree`: all accessors of a table that is built agree on the relationships of any id.
-/

namespace Superstep

/-! ## Calls of a visitor -/

namespace Graph

variable {W σ : Type} {visitor : σ → NodeId → W → σ × Bool} {s s' : σ}
  {r : NodeId × W} {rs p : List (NodeId × W)}

/-- The state of a visitor after it has been called on relationships. -/
def stateAfter (visitor : σ → NodeId → W → σ × Bool) (s : σ) (calls : List (NodeId × W)) : σ :=
  calls.foldl (fun s r => (visitor s r.1 r.2).1) s

/-- A visitor that also writes down what it is called on. -/
def recording (visitor : σ → NodeId → W → σ × Bool) :
    σ × List (NodeId × W) → NodeId → W → (σ × List (NodeId × W)) × Bool :=
  fun (s, calls) target weight =>
    let (s, more) := visitor s target weight
    ((s, calls ++ [(target, weight)]), more)

/-- After the last of these calls the visitor does not want to go on. -/
def Refuses (visitor : σ → NodeId → W → σ × Bool) (s : σ) (calls : List (NodeId × W)) : Prop :=
  ∃ before r, calls = before ++ [r] ∧ (visitor (stateAfter visitor s before) r.1 r.2).2 = false

/-- The relationships that a visitor is called on, of all those that it is to be led through: the
    shortest part from the start that ends with a refusal, or all if there is none. -/
structure CutOff (visitor : σ → NodeId → W → σ × Bool) (s : σ) (rs calls : List (NodeId × W)) :
    Prop where
  initial : calls <+: rs
  shortest : ∀ p, p <+: rs → Refuses visitor s p → calls <+: p
  ending : Refuses visitor s calls ∨ calls = rs

theorem not_refuses_nil : ¬ Refuses visitor s [] := by
  rintro ⟨before, r, h, -⟩
  simp at h

/-- A visitor that goes on after its first call refuses later on. -/
theorem refuses_cons_iff (h : visitor s r.1 r.2 = (s', true)) :
    Refuses visitor s (r :: p) ↔ Refuses visitor s' p := by
  constructor
  · rintro ⟨before, last, hp, hrefused⟩
    cases before with
    | nil =>
      obtain ⟨rfl, rfl⟩ := List.cons.inj hp
      simp [stateAfter, h] at hrefused
    | cons first before =>
      obtain ⟨rfl, rfl⟩ := List.cons.inj hp
      refine ⟨before, last, rfl, ?_⟩
      simpa [stateAfter, h] using hrefused
  · rintro ⟨before, last, rfl, hrefused⟩
    refine ⟨r :: before, last, rfl, ?_⟩
    simpa [stateAfter, h] using hrefused

namespace CutOff

theorem nil (visitor : σ → NodeId → W → σ × Bool) (s : σ) : CutOff visitor s [] [] :=
  ⟨List.prefix_rfl, fun _ _ _ => List.nil_prefix, .inr rfl⟩

theorem of_refused (h : visitor s r.1 r.2 = (s', false)) : CutOff visitor s (r :: rs) [r] := by
  refine ⟨⟨rs, rfl⟩, fun p hp hrefused => ?_, .inl ⟨[], r, rfl, by simp [stateAfter, h]⟩⟩
  cases p with
  | nil => exact absurd hrefused not_refuses_nil
  | cons first p =>
    obtain ⟨rfl, -⟩ := List.cons_prefix_cons.1 hp
    exact ⟨p, rfl⟩

theorem cons (h : visitor s r.1 r.2 = (s', true)) {calls : List (NodeId × W)}
    (hrest : CutOff visitor s' rs calls) : CutOff visitor s (r :: rs) (r :: calls) := by
  refine ⟨List.cons_prefix_cons.2 ⟨rfl, hrest.initial⟩, fun p hp hrefused => ?_, ?_⟩
  · cases p with
    | nil => exact absurd hrefused not_refuses_nil
    | cons first p =>
      obtain ⟨rfl, hp'⟩ := List.cons_prefix_cons.1 hp
      exact List.cons_prefix_cons.2 ⟨rfl, hrest.shortest p hp' ((refuses_cons_iff h).1 hrefused)⟩
  · exact hrest.ending.imp (refuses_cons_iff h).2 (congrArg (r :: ·))

end CutOff

/-- A visitor is called on the shortest part of the relationships that ends with a refusal. -/
theorem visitAll_recording (visitor : σ → NodeId → W → σ × Bool) (s : σ)
    (rs : List (NodeId × W)) : ∃ calls, CutOff visitor s rs calls ∧
      (visitAll visitor s rs).1 = stateAfter visitor s calls ∧
      ∀ before, (visitAll (recording visitor) (s, before) rs).1 =
        (stateAfter visitor s calls, before ++ calls) := by
  induction rs generalizing s with
  | nil => exact ⟨[], .nil visitor s, rfl, fun before => by simp [visitAll, stateAfter]⟩
  | cons r rs ih =>
    obtain ⟨target, weight⟩ := r
    cases hcall : visitor s target weight with
    | mk s' more =>
      cases more with
      | true =>
        obtain ⟨calls, hcut, hstate, hrecord⟩ := ih s'
        refine ⟨_, hcut.cons hcall, ?_, fun before => ?_⟩
        · simp [visitAll, stateAfter, hcall, hstate]
        · have hnext := hrecord (before ++ [(target, weight)])
          rw [List.append_assoc, List.singleton_append] at hnext
          simpa [visitAll, recording, stateAfter, hcall] using hnext
      | false =>
        refine ⟨_, .of_refused hcall, ?_, fun before => ?_⟩
        · simp [visitAll, stateAfter, hcall]
        · simp [visitAll, recording, stateAfter, hcall]

end Graph

/-! ## Reading from position to position -/

namespace OffsetTable

variable {W σ : Type}

/-- Where the relationships of a node begin and end. The position of the second offset must be a
    word, and both are read from the array. -/
def stretchAt? (t : OffsetTable W) (node : NodeId) : Option (Option (Nat × Nat)) :=
  match Word.add? node.val 1 with
  | none => some none
  | some next =>
    if next.toNat < t.offsets.size then do
      let first ← t.offsets[node.index]?
      let last ← t.offsets[next.toNat]?
      return some (first, last)
    else some none

/-- The number of relationships that leave a node, unless its offsets are in the wrong order. -/
def degree? (t : OffsetTable W) (node : NodeId) : Option Nat :=
  (t.stretchAt? node).bind fun
    | some (first, last) => if first ≤ last then some (last - first) else none
    | none => some 0

/-- Leads a visitor over `count` positions from position `i` on, as long as it wants to go on. -/
def visitFrom? (targets : Array NodeId) (weights : Array W) (visitor : σ → NodeId → W → σ × Bool) :
    Nat → Nat → σ → Option σ
  | 0, _, s => some s
  | count + 1, i, s => do
    let target ← targets[i]?
    let weight ← weights[i]?
    match visitor s target weight with
    | (s, true) => visitFrom? targets weights visitor count (i + 1) s
    | (s, false) => some s

/-- Leads a visitor over the relationships that leave a node: from position to position in a
    weighted graph, along the stretch of targets in another one. -/
def visit? [Weight W] (t : OffsetTable W) (node : NodeId) (visitor : σ → NodeId → W → σ × Bool)
    (s : σ) : Option σ :=
  (t.stretchAt? node).bind fun
    | none => some s
    | some (first, last) =>
      match t.weights with
      | some weights => visitFrom? t.targets weights visitor (last - first) first s
      | none => (stretchOf t.targets first last).toOption.map fun targets =>
          (Graph.visitAll visitor s (targets.map (·, Weight.unit))).1

/-- The weight of the first relationship from `node` to `neighbor`, for which a visitor looks. -/
def weight? [Weight W] (t : OffsetTable W) (node neighbor : NodeId) : Option (Option W) :=
  t.visit? node
    (fun found target weight => if target = neighbor then (some weight, false) else (found, true))
    none

/-- The position of an offset is looked up without an overflow, also for the largest id. -/
theorem stretchAt?_eq {t : OffsetTable W} (hsize : t.offsets.size ≤ wordLimit) (node : NodeId) :
    t.stretchAt? node = some (t.stretch? node) := by
  unfold stretchAt? stretch?
  by_cases hword : node.val.toNat + (1 : UInt64).toNat < wordLimit
  · have hnext : (node.val + 1).toNat = node.index + 1 := Word.toNat_add_of_lt hword
    rw [Word.add?_of_lt hword]
    dsimp only
    rw [hnext]
    by_cases hlt : node.index + 1 < t.offsets.size
    · rw [if_pos hlt, Array.getElem?_eq_getElem hlt, Array.getElem?_eq_getElem (by omega)]
      rfl
    · rw [if_neg hlt, Array.getElem?_eq_none (Nat.le_of_not_lt hlt)]
      split <;> simp_all
  · have hlast : t.offsets.size ≤ node.index + 1 := by
      rw [UInt64.toNat_one, ← NodeId.index] at hword
      omega
    rw [Word.add?, if_neg hword, Array.getElem?_eq_none hlast]
    split <;> simp_all

/-- A visitor is led over what two arrays have side by side, and breaks off after that. -/
theorem visitFrom?_eq (targets : Array NodeId) (weights : Array W)
    (visitor : σ → NodeId → W → σ × Bool) (count i : Nat) (s : σ) :
    visitFrom? targets weights visitor count i s =
      match Graph.visitAll visitor s
        (((targets.toList.zip weights.toList).drop i).take count) with
      | (s, true) =>
        if count = 0 ∨ i + count ≤ min targets.size weights.size then some s else none
      | (s, false) => some s := by
  induction count generalizing i s with
  | zero => simp [visitFrom?, Graph.visitAll]
  | succ count ih =>
    have hlength : (targets.toList.zip weights.toList).length = min targets.size weights.size := by
      simp
    rw [visitFrom?]
    by_cases hi : i < min targets.size weights.size
    · have htarget : i < targets.size := by omega
      have hweight : i < weights.size := by omega
      have hdrop : (targets.toList.zip weights.toList).drop i =
          (targets[i], weights[i]) :: (targets.toList.zip weights.toList).drop (i + 1) := by
        rw [List.drop_eq_getElem_cons (hlength.symm ▸ hi), List.getElem_zip]
        rfl
      rw [Array.getElem?_eq_getElem htarget, Array.getElem?_eq_getElem hweight, hdrop,
        List.take_succ_cons, Graph.visitAll]
      simp only [Option.bind_eq_bind, Option.bind_some]
      cases visitor s targets[i] weights[i] with
      | mk s' more =>
        cases more with
        | true =>
          have hfits : (count = 0 ∨ i + 1 + count ≤ min targets.size weights.size) ↔
              (count + 1 = 0 ∨ i + (count + 1) ≤ min targets.size weights.size) := by omega
          simp only [ih, hfits]
        | false => rfl
    · -- One of the arrays ends here, so that nothing lies side by side from here on.
      have hmissing : targets[i]? = none ∨ weights[i]? = none := by
        rw [Array.getElem?_eq_none_iff, Array.getElem?_eq_none_iff]
        omega
      rw [List.drop_of_length_le (by omega), List.take_nil, Graph.visitAll]
      dsimp only
      rw [if_neg (by omega)]
      rcases hmissing with hnone | hnone
      · rw [hnone]
        rfl
      · cases targets[i]? with
        | none => rfl
        | some target =>
          rw [hnone]
          rfl

theorem zip_extract (targets : Array NodeId) (weights : Array W) (first last : Nat) :
    (targets.extract first last).toList.zip (weights.extract first last).toList =
      ((targets.toList.zip weights.toList).drop first).take (last - first) := by
  rw [Array.toList_extract, Array.toList_extract, List.extract_eq_take_drop,
    List.extract_eq_take_drop]
  unfold List.zip
  rw [List.drop_zipWith, List.take_zipWith]

variable [Weight W]

/-- Reading from position to position is walking along the relationships that are listed, and
    breaks off where that meets a fault. -/
theorem visit?_eq {t : OffsetTable W} (hsize : t.offsets.size ≤ wordLimit) (node : NodeId)
    (visitor : σ → NodeId → W → σ × Bool) (s : σ) :
    t.visit? node visitor s =
      match t.toGraph.visit node visitor s with
      | (s, none) => some s
      | (_, some _) => none := by
  have hrelationships : t.toGraph.relationships node = t.relationships node := rfl
  have hfault : t.toGraph.fault? node = t.fault? node := rfl
  rw [visit?, stretchAt?_eq hsize, Option.bind_some, Graph.visit, hrelationships, hfault]
  unfold relationships fault?
  cases t.stretch? node with
  | none => rfl
  | some stretch =>
    obtain ⟨first, last⟩ := stretch
    cases t.weights with
    | some weights =>
      have hfits : (last - first = 0 ∨ first + (last - first) ≤ min t.targets.size weights.size) ↔
          last ≤ max first (min t.targets.size weights.size) := by omega
      dsimp only
      rw [visitFrom?_eq, zip_extract]
      simp only [hfits, missing?]
      generalize Graph.visitAll visitor s _ = walked
      obtain ⟨s', more⟩ := walked
      cases more with
      | false => rfl
      | true =>
        by_cases hlast : last ≤ max first (min t.targets.size weights.size)
        · simp only [if_pos hlast]
        · simp only [if_neg hlast, ← apply_ite some]
    | none =>
      dsimp only
      unfold stretchOf
      cases stretchFault? t.targets.size first last with
      | none =>
        dsimp only [Except.toOption, Option.map_some]
        generalize Graph.visitAll visitor s _ = walked
        obtain ⟨s', more⟩ := walked
        cases more <;> rfl
      | some fault => rfl

/-! ## Accessors that agree -/

/-- All accessors read `rels` as the relationships that leave an id, and none of them fails. -/
structure Reads (t : OffsetTable W) (node : NodeId) (rels : List (NodeId × W)) : Prop where
  stretch : t.stretchAt? node = some (t.stretch? node)
  relationships : t.toGraph.relationships node = rels
  neighbors : t.neighbors node = .ok (rels.map Prod.fst)
  /-- A node of a weighted graph has weights; other ids have none. -/
  weights : t.weightsOf? node =
    .ok (if t.weights.isSome ∧ node.index < t.nodeCount then some (rels.map Prod.snd) else none)
  degree : t.degree? node = some rels.length ∧ t.degree node = rels.length
  weight : ∀ neighbor,
    t.weight? node neighbor = some ((rels.find? fun r => r.1 = neighbor).map Prod.snd) ∧
    t.toGraph.weight? node neighbor = ((rels.find? fun r => r.1 = neighbor).map Prod.snd, none)
  visit : ∀ {σ : Type} (visitor : σ → NodeId → W → σ × Bool) (s : σ), ∃ calls,
    Graph.CutOff visitor s rels calls ∧
    t.toGraph.visit node visitor s = (Graph.stateAfter visitor s calls, none) ∧
    t.visit? node visitor s = some (Graph.stateAfter visitor s calls) ∧
    t.visit? node (Graph.recording visitor) (s, []) =
      some (Graph.stateAfter visitor s calls, calls)
  /-- A visitor that counts its calls and never stops comes to the degree. -/
  full : t.visit? node (fun n _ _ => (n + 1, true)) 0 = some rels.length

section Rows

variable {weighted : Bool} {rows : List (List (NodeId × W))} {node : NodeId}

omit [Weight W]

theorem neighbors_ofRows (h : node.index < rows.length) :
    (ofRows weighted rows).neighbors node = .ok (rows[node.index].map Prod.fst) := by
  have hfits : rowStart rows (node.index + 1) ≤ (ofRows weighted rows).targets.size := by
    rw [size_targets_ofRows]
    exact rowStart_le rows (node.index + 1)
  rw [neighbors, stretch?_ofRows h]
  dsimp only
  rw [stretchOf_of_le (rowStart_le_succ h) hfits]
  exact congrArg Except.ok (extract_map_flatten _ h)

theorem weightsOf?_ofRows (h : node.index < rows.length) :
    (ofRows weighted rows).weightsOf? node =
      .ok (if weighted then some (rows[node.index].map Prod.snd) else none) := by
  rw [weightsOf?, stretch?_ofRows h]
  cases weighted with
  | false => rfl
  | true =>
    have hfits : rowStart rows (node.index + 1) ≤
        (rows.flatten.map Prod.snd).toArray.size := by
      rw [List.size_toArray, List.length_map]
      exact rowStart_le rows (node.index + 1)
    have hread := stretchOf_of_le (rowStart_le_succ h) hfits
    rw [extract_map_flatten _ h] at hread
    exact congrArg (some <$> ·) hread

end Rows

namespace Lists

variable {t : OffsetTable W} {n : UInt64} {es : List (NodeId × NodeId × W)} (h : t.Lists n es)
include h

theorem size_offsets_le : t.offsets.size ≤ wordLimit := by
  rw [h.table, ofRows, List.size_toArray, List.length_map, List.length_range,
    Builder.length_rowsOf]
  exact toNat_lt_wordLimit n

theorem visit_eq (node : NodeId) (visitor : σ → NodeId → W → σ × Bool) (s : σ) :
    t.toGraph.visit node visitor s =
      ((Graph.visitAll visitor s (t.relationships node)).1, none) :=
  Graph.visit_of_no_fault (h.fault?_eq_none node) visitor s

theorem visit?_eq (node : NodeId) (visitor : σ → NodeId → W → σ × Bool) (s : σ) :
    t.visit? node visitor s = some (Graph.visitAll visitor s (t.relationships node)).1 := by
  rw [OffsetTable.visit?_eq h.size_offsets_le, h.visit_eq]

theorem neighbors_eq (node : NodeId) :
    t.neighbors node = .ok ((t.relationships node).map Prod.fst) := by
  by_cases hnode : node.index < n.toNat
  · have hrows := Builder.lt_length_rowsOf hnode es
    rw [h.relationships_eq hnode, h.table, neighbors_ofRows hrows, Builder.getElem_rowsOf]
  · have hge := h.nodeCount_le hnode
    rw [relationships_of_not_node hge, neighbors, stretch?_eq_none_iff.2 hge]
    rfl

theorem weightsOf?_eq (node : NodeId) :
    t.weightsOf? node = .ok (if t.weights.isSome ∧ node.index < t.nodeCount
      then some ((t.relationships node).map Prod.snd) else none) := by
  rw [h.nodeCount_eq]
  by_cases hnode : node.index < n.toNat
  · have hrows := Builder.lt_length_rowsOf hnode es
    simp only [hnode, and_true]
    conv_lhs => rw [h.table]
    rw [weightsOf?_ofRows hrows, Builder.getElem_rowsOf, h.relationships_eq hnode]
  · rw [if_neg fun hboth => hnode hboth.2, weightsOf?,
      stretch?_eq_none_iff.2 (h.nodeCount_le hnode)]

theorem degree?_eq (node : NodeId) : t.degree? node = some (t.degree node) := by
  rw [degree?, stretchAt?_eq h.size_offsets_le, Option.bind_some, degree]
  by_cases hnode : node.index < n.toNat
  · have hrows := Builder.lt_length_rowsOf hnode es
    have hle := rowStart_le_succ hrows
    rw [h.table, stretch?_ofRows hrows]
    dsimp only
    rw [if_pos hle, if_pos hle]
  · rw [stretch?_eq_none_iff.2 (h.nodeCount_le hnode)]

/-- All accessors of a table read the same relationships. -/
theorem reads (node : NodeId) : t.Reads node (t.relationships node) where
  stretch := stretchAt?_eq h.size_offsets_le node
  relationships := rfl
  neighbors := h.neighbors_eq node
  weights := h.weightsOf?_eq node
  degree := by
    rw [h.degree?_eq, h.degree_eq]
    exact ⟨rfl, rfl⟩
  weight neighbor := by
    have hfound := Graph.weight?_eq_find? t.toGraph node neighbor
    rw [Graph.weight?, h.visit_eq] at hfound ⊢
    rw [weight?, h.visit?_eq]
    exact ⟨congrArg some hfound, congrArg (·, none) hfound⟩
  visit visitor s := by
    obtain ⟨calls, hcut, hstate, hrecord⟩ :=
      Graph.visitAll_recording visitor s (t.relationships node)
    refine ⟨calls, hcut, ?_, ?_, ?_⟩
    · rw [h.visit_eq, hstate]
    · rw [h.visit?_eq, hstate]
    · rw [h.visit?_eq, hrecord, List.nil_append]
  full := by
    rw [h.visit?_eq, Graph.visitAll_eq_foldl (fun n _ _ => n + 1)]
    simp

/-- The degrees of all nodes add up to the number of relationships. -/
theorem sum_degree :
    (t.toGraph.nodes.map t.toGraph.degree).sum = t.toGraph.relationshipCount :=
  calc (t.toGraph.nodes.map t.toGraph.degree).sum
      = ((t.toGraph.nodes.map t.toGraph.relationships).map List.length).sum := by
        rw [List.map_map]
        exact congrArg List.sum (List.map_congr_left fun node _ => h.degree_eq node)
    _ = (Builder.rowsOf n.toNat es).flatten.length := by
        rw [h.map_relationships, List.length_flatten]
    _ = t.targets.size := by
        rw [h.table, size_targets_ofRows]

end Lists

/-- Any table that a builder is frozen into, and any id at all. Every accessor reads the stored
    relationships that leave the id, in the order of their addition and with their weights, or with
    unit weight in a table without weights; a visitor that may stop is called on the shortest part
    of them that ends with a refusal. An id that is no node has none of them. The degrees of all
    nodes add up to the number of relationships. -/
theorem accessors_agree [Memory.Allocator] {b : Builder W} {t : OffsetTable W} (hb : b.Filled)
    (hbuild : b.build = .ok t) :
    (∀ node, t.Reads node ((b.stored.filter fun e => e.1 = node).map Prod.snd)) ∧
    (∀ node : NodeId, b.nodeCount ≤ node.val → t.Reads node []) ∧
    (t.weights = none → ∀ e ∈ b.stored, e.2.2 = Weight.unit) ∧
    t.toGraph.nodeCount = b.nodeCount ∧ t.toGraph.relationshipCount = b.size ∧
    (t.toGraph.nodes.map t.toGraph.degree).sum = t.toGraph.relationshipCount := by
  have hlists : t.Lists b.nodeCount b.stored := lists_of_build hb.sound hbuild
  have hcount : t.toGraph.relationshipCount = b.size := by
    show t.targets.size = b.size
    rw [hlists.table, size_targets_ofRows, Builder.length_flatten_rowsOf hb.sound.source_lt,
      hb.sound.length_stored]
  refine ⟨fun node => ?_, fun node hnode => ?_, hlists.units, hlists.nodeCount_toGraph, hcount,
    hlists.sum_degree⟩
  · rw [← hlists.relationships_eq_filter]
    exact hlists.reads node
  · have hge : ¬ node.index < b.nodeCount.toNat := Nat.not_lt.2 (UInt64.le_iff_toNat_le.1 hnode)
    rw [← relationships_of_not_node (hlists.nodeCount_le hge)]
    exact hlists.reads node

/-- Relationships that are not in the order of their sources, and the largest id of all. -/
theorem accessors_agree_threeStored :
    ∃ t, Builder.threeStored.build = .ok t ∧ t.Reads ⟨1⟩ [(⟨2⟩, 0.5), (⟨0⟩, 2.5)] ∧
      t.Reads ⟨18446744073709551615⟩ [] ∧
      (t.toGraph.nodes.map t.toGraph.degree).sum = 3 := by
  obtain ⟨t, hbuild⟩ : ∃ t, Builder.threeStored.build = .ok t :=
    ⟨_, Builder.build_eq Builder.filled_threeStored.sound ⟨by decide, by decide⟩⟩
  obtain ⟨hreads, hunknown, -, -, hcount, hsum⟩ :=
    accessors_agree Builder.filled_threeStored hbuild
  exact ⟨t, hbuild, hreads ⟨1⟩, hunknown _ (by decide), hsum.trans hcount⟩

end OffsetTable

end Superstep
