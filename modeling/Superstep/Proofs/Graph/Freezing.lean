import Mathlib.Algebra.BigOperators.Group.List.Basic
import Mathlib.Algebra.GroupWithZero.Nat
import Superstep.Proofs.Graph.Made

/-!
# Freezing in place

`Builder.build` says what each pass of its counting sort computes. Here the passes are loops that
work in place: counts turn into offsets in the array in which they were counted, and one loop moves
the cursors and writes targets and weights side by side. Every access to an array is checked, and
`none` is an index that is out of bounds.

Results:
* `Sound.freeze?_eq`: the loops never leave an array of a sound builder, and what they leave behind
  is the table that `build` gives.
* `build_sorts`: a builder that constructors, additions and copies lead to is frozen if the arrays
  fit. The table is well formed, and the stretch of a node holds the relationships that leave it, in
  the order of their addition, with their weights.
-/

namespace Superstep

namespace Builder

variable {W : Type}

/-! ## Checked accesses -/

section Checked

variable {α : Type} {items : Array α} {i : Nat}

/-- Changes an element of an array, which must have it. -/
def modify? (items : Array α) (i : Nat) (f : α → α) : Option (Array α) :=
  if i < items.size then some (items.modify i f) else none

/-- Replaces an element of an array, which must have it. -/
def set? (items : Array α) (i : Nat) (x : α) : Option (Array α) :=
  if i < items.size then some (items.setIfInBounds i x) else none

theorem modify?_of_lt (h : i < items.size) (f : α → α) :
    modify? items i f = some (items.modify i f) := if_pos h

theorem set?_of_lt (h : i < items.size) (x : α) :
    set? items i x = some (items.setIfInBounds i x) := if_pos h

end Checked

/-! ## The loops -/

/-- Counts the relationships that leave node `i` at `i + 1`. -/
def countSources? (slots : Nat) (rs : List (NodeId × NodeId)) : Option (Array Nat) :=
  rs.foldlM (fun counts r => modify? counts (r.1.index + 1) (· + 1)) (Array.replicate slots 0)

/-- Adds the entry before position `i` to the entry there. -/
def sumStep? (sums : Array Nat) (i : Nat) : Option (Array Nat) := do
  let before ← sums[i - 1]?
  modify? sums i (· + before)

/-- Turns `slots` counts into running sums, from the second entry on. -/
def sumOffsets? (slots : Nat) (counts : Array Nat) : Option (Array Nat) :=
  (List.range' 1 (slots - 1)).foldlM sumStep? counts

/-- What the last loop works on: the next free place of each node, and the arrays that it fills. -/
structure Sorting (W : Type) where
  cursor : Array Nat
  targets : Array NodeId
  weights : Option (Array W)

/-- Writes a relationship, with its position among all, to the next free place of its source. Its
    weight is read from `given`. -/
def Sorting.take? (given : Option (Array W)) (s : Sorting W) (r : (NodeId × NodeId) × Nat) :
    Option (Sorting W) := do
  let slot ← s.cursor[r.1.1.index]?
  let cursor ← modify? s.cursor r.1.1.index (· + 1)
  let targets ← set? s.targets slot r.1.2
  let weights ←
    match s.weights, given with
    | some out, some ws => do
      let w ← ws[r.2]?
      let out ← set? out slot w
      pure (some out)
    | out, _ => pure out
  return ⟨cursor, targets, weights⟩

/-- The three loops, one after the other. -/
def freeze? [Weight W] (b : Builder W) : Option (OffsetTable W) := do
  let slots := b.nodeCount.toNat + 1
  let counts ← countSources? slots b.relationships.toList
  let offsets ← sumOffsets? slots counts
  let sorted ← b.relationships.toList.zipIdx.foldlM (Sorting.take? b.weights)
    { cursor := offsets
      targets := Array.replicate b.relationships.size default
      weights := b.weights.map fun ws => Array.replicate ws.size Weight.unit }
  return { offsets, targets := sorted.targets, weights := sorted.weights }

/-! ## Counting -/

/-- Counting in place stays within the array if every source is a node. -/
theorem countSources?_eq {n : Nat} {rs : List (NodeId × NodeId)}
    (hsource : ∀ r ∈ rs, r.1.index < n) :
    countSources? (n + 1) rs = some (countSources (n + 1) rs.toArray) := by
  have hfold : ∀ counts : Array Nat, counts.size = n + 1 →
      rs.foldlM (fun counts r => modify? counts (r.1.index + 1) (· + 1)) counts =
        some (rs.foldl (fun counts r => counts.modify (r.1.index + 1) (· + 1)) counts) := by
    induction rs with
    | nil => exact fun _ _ => rfl
    | cons r rs ih =>
      rw [List.forall_mem_cons] at hsource
      intro counts hsize
      rw [List.foldlM_cons, modify?_of_lt (by omega), Option.bind_eq_bind, Option.bind_some,
        ih hsource.2 _ (by rw [Array.size_modify, hsize]), List.foldl_cons]
  rw [countSources?, hfold _ Array.size_replicate, countSources, List.foldl_toArray]

/-! ## Running sums -/

section Sums

/-- An offset is the sum of the counts up to and including its own. -/
theorem sumOffsets_eq (counts : List Nat) :
    sumOffsets counts.toArray =
      ((List.range counts.length).map fun j => (counts.take (j + 1)).sum).toArray := by
  have hfold : counts.foldl
      (fun s count => (s.1.push (s.2 + count), s.2 + count)) (#[], 0) =
        (((List.range counts.length).map fun j => (counts.take (j + 1)).sum).toArray,
          counts.sum) := by
    induction counts using List.reverseRecOn with
    | nil => rfl
    | append_singleton counts count ih =>
      have hkept :
          (List.range counts.length).map (fun j => ((counts ++ [count]).take (j + 1)).sum) =
          (List.range counts.length).map fun j => (counts.take (j + 1)).sum :=
        List.map_congr_left fun j hj => by
          rw [List.take_append_of_le_length (List.mem_range.1 hj)]
      rw [List.foldl_append, ih, List.length_append, List.length_singleton, List.range_succ,
        List.map_append, hkept]
      simp [List.take_of_length_le]
  rw [sumOffsets, List.foldl_toArray]
  exact congrArg Prod.fst hfold

/-- The entries while counts are summed up in place: those up to the `k`-th are offsets already. -/
def partialSums (counts : List Nat) (k : Nat) : Array Nat :=
  ((List.range counts.length).map fun j =>
    if j ≤ k then (counts.take (j + 1)).sum else counts.getD j 0).toArray

theorem partialSums_zero (counts : List Nat) : partialSums counts 0 = counts.toArray := by
  refine congrArg List.toArray (List.ext_getElem (by simp) fun j hj hj' => ?_)
  rw [List.getElem_map, List.getElem_range]
  split
  · next hzero =>
    obtain rfl := Nat.le_zero.1 hzero
    simp [List.take_one, List.head?_eq_getElem?, hj']
  · simp [List.getElem?_eq_getElem hj']

/-- One step of the loop makes one more offset. -/
theorem sumStep?_partialSums {counts : List Nat} {k : Nat} (hk : k + 1 < counts.length) :
    sumStep? (partialSums counts k) (k + 1) = some (partialSums counts (k + 1)) := by
  have hbefore : (partialSums counts k)[k]? = some (counts.take (k + 1)).sum := by
    simp [partialSums, Nat.lt_of_succ_lt hk]
  rw [sumStep?, Nat.add_sub_cancel, hbefore, Option.bind_eq_bind, Option.bind_some,
    modify?_of_lt (by simpa [partialSums] using hk)]
  refine congrArg some (Array.ext (by simp [partialSums]) fun j hj hj' => ?_)
  have hlt : j < counts.length := by simpa [partialSums] using hj'
  simp only [Array.getElem_modify, partialSums, List.getElem_toArray, List.getElem_map,
    List.getElem_range]
  rcases Nat.lt_trichotomy j (k + 1) with hlow | rfl | hhigh
  · rw [if_neg (by omega), if_pos (by omega), if_pos (by omega)]
  · rw [if_pos rfl, if_neg (by omega), if_pos le_rfl, List.sum_take_succ counts (k + 1) hk]
    simp [hk, Nat.add_comm]
  · rw [if_neg (by omega), if_neg (by omega), if_neg (by omega)]

theorem foldlM_sumStep? {counts : List Nat} {k : Nat} (hk : k < counts.length) :
    (List.range' 1 k).foldlM sumStep? counts.toArray = some (partialSums counts k) := by
  induction k with
  | zero => rw [partialSums_zero]; rfl
  | succ k ih =>
    rw [List.range'_1_concat, List.foldlM_append, ih (by omega), Option.bind_eq_bind,
      Option.bind_some, List.foldlM_cons, Nat.add_comm 1 k, sumStep?_partialSums hk]
    rfl

theorem sumOffsets?_eq (counts : Array Nat) :
    sumOffsets? counts.size counts = some (sumOffsets counts) := by
  obtain ⟨counts⟩ := counts
  rw [sumOffsets?, List.size_toArray]
  rcases Nat.eq_zero_or_pos counts.length with hzero | hpos
  · obtain rfl := List.eq_nil_of_length_eq_zero hzero
    rfl
  · rw [foldlM_sumStep? (by omega), sumOffsets_eq, partialSums]
    refine congrArg (fun sums => some (List.toArray sums)) (List.map_congr_left fun j hj => ?_)
    have := List.mem_range.1 hj
    rw [if_pos (by omega)]

end Sums

/-! ## Placing -/

section Placing

variable {α : Type}

/-- The places that cursors hand out to relationships, one after the other. -/
def slotsFrom (cursor : Array Nat) : List (NodeId × NodeId) → List Nat
  | [] => []
  | r :: rs => cursor.getD r.1.index 0 :: slotsFrom (cursor.modify r.1.index (· + 1)) rs

theorem toList_places (offsets : Array Nat) (rs : Array (NodeId × NodeId)) :
    (places offsets rs).toList = slotsFrom offsets rs.toList := by
  obtain ⟨rs⟩ := rs
  have hfold : ∀ (placed cursor : Array Nat), (rs.foldl (fun s r =>
      (s.1.push (s.2.getD r.1.index 0), s.2.modify r.1.index (· + 1)))
        (placed, cursor)).1.toList = placed.toList ++ slotsFrom cursor rs := by
    induction rs with
    | nil => exact fun _ _ => (List.append_nil _).symm
    | cons r rs ih =>
      intro placed cursor
      rw [List.foldl_cons, ih, slotsFrom, Array.toList_push, List.append_assoc,
        List.singleton_append]
  rw [places, List.foldl_toArray]
  exact hfold #[] offsets

/-- Writes to places in an array that has them. -/
def writeAll (out : Array α) (zs : List (Nat × α)) : Array α :=
  zs.foldl (fun out (slot, item) => out.setIfInBounds slot item) out

theorem place_eq_writeAll (blank : α) (slots : Array Nat) (items : Array α) :
    place blank slots items =
      writeAll (Array.replicate items.size blank) (slots.toList.zip items.toList) := by
  rw [place, ← Array.foldl_toList, Array.toList_zip]
  rfl

theorem size_writeAll (out : Array α) (zs : List (Nat × α)) : (writeAll out zs).size = out.size :=
  size_foldl_set zs out

theorem writeAll_zip_cons (out : Array α) (slot : Nat) (slots : List Nat) {items : List α}
    (h : items ≠ []) :
    writeAll (writeAll out ([slot].zip items)) (slots.zip items.tail) =
      writeAll out ((slot :: slots).zip items) := by
  obtain ⟨item, items, rfl⟩ := List.exists_cons_of_ne_nil h
  rfl

variable {W : Type} {given : Option (Array W)} {s : Sorting W}

/-- The arrays that are filled have one size, and weights are filled if there are some. -/
structure Sorting.Fits (s : Sorting W) (given : Option (Array W)) : Prop where
  size : ∀ out ∈ s.weights, out.size = s.targets.size
  given : s.weights.isSome = given.isSome

/-- One step of the last loop, with every access in bounds. -/
theorem Sorting.take?_eq (h : s.Fits given) {r : NodeId × NodeId} {position : Nat}
    (hsource : r.1.index < s.cursor.size) (hslot : s.cursor.getD r.1.index 0 < s.targets.size)
    (hgiven : ∀ ws ∈ given, position < ws.size) :
    s.take? given (r, position) = some
      { cursor := s.cursor.modify r.1.index (· + 1)
        targets := s.targets.setIfInBounds (s.cursor.getD r.1.index 0) r.2
        weights := s.weights.map fun out =>
          writeAll out ([s.cursor.getD r.1.index 0].zip
            ((given.getD #[]).toList.drop position)) } := by
  obtain ⟨slot, hread⟩ : ∃ slot, s.cursor[r.1.index]? = some slot :=
    ⟨_, Array.getElem?_eq_getElem hsource⟩
  have hread' : s.cursor.getD r.1.index 0 = slot := by
    rw [Array.getD_eq_getD_getElem?, hread, Option.getD_some]
  obtain ⟨hsize, hsome⟩ := h
  rw [hread'] at hslot ⊢
  cases hout : s.weights with
  | none =>
    simp [take?, hread, modify?_of_lt hsource, set?_of_lt hslot, hout]
  | some out =>
    rw [hout, Option.isSome_some, eq_comm, Option.isSome_iff_exists] at hsome
    obtain ⟨ws, rfl⟩ := hsome
    have hposition : position < ws.size := hgiven ws rfl
    have hin : slot < out.size := by rwa [hsize out hout]
    have hdrop : ws.toList.drop position = ws[position] :: ws.toList.drop (position + 1) :=
      List.drop_eq_getElem_cons (by simpa using hposition)
    simp [take?, hread, modify?_of_lt hsource, set?_of_lt hslot, set?_of_lt hin, hout, hposition,
      hdrop, writeAll]

/-- The last loop never leaves an array if no place is past the end. -/
theorem Sorting.foldlM_take? {rs : List (NodeId × NodeId)} (position : Nat) (h : s.Fits given)
    (hsource : ∀ r ∈ rs, r.1.index < s.cursor.size)
    (hslots : ∀ p ∈ slotsFrom s.cursor rs, p < s.targets.size)
    (hgiven : ∀ ws ∈ given, ws.size = position + rs.length) :
    ∃ cursor, (rs.zipIdx position).foldlM (Sorting.take? given) s = some
      { cursor
        targets := writeAll s.targets ((slotsFrom s.cursor rs).zip (rs.map Prod.snd))
        weights := s.weights.map fun out =>
          writeAll out ((slotsFrom s.cursor rs).zip
            ((given.getD #[]).toList.drop position)) } := by
  induction rs generalizing s position with
  | nil =>
    refine ⟨s.cursor, ?_⟩
    simp [slotsFrom, writeAll]
  | cons r rs ih =>
    rw [List.forall_mem_cons] at hsource
    rw [slotsFrom, List.forall_mem_cons] at hslots
    simp only [List.length_cons] at hgiven
    have hposition : ∀ ws ∈ given, position < ws.size := fun ws hws => by
      have := hgiven ws hws
      omega
    rw [List.zipIdx_cons, List.foldlM_cons, take?_eq h hsource.1 hslots.1 hposition,
      Option.bind_eq_bind, Option.bind_some]
    obtain ⟨cursor, hrest⟩ := ih (position + 1)
      (s := { cursor := s.cursor.modify r.1.index (· + 1)
              targets := s.targets.setIfInBounds (s.cursor.getD r.1.index 0) r.2
              weights := s.weights.map fun out =>
                writeAll out ([s.cursor.getD r.1.index 0].zip
                  ((given.getD #[]).toList.drop position)) })
      ⟨fun out hout => by
        obtain ⟨out', hout', rfl⟩ := Option.map_eq_some_iff.1 hout
        rw [size_writeAll, Array.size_setIfInBounds, h.size out' hout'],
        by rw [Option.isSome_map, h.given]⟩
      (fun r' hr' => by rw [Array.size_modify]; exact hsource.2 r' hr')
      (fun p hp => by rw [Array.size_setIfInBounds]; exact hslots.2 p hp)
      (fun ws hws => by rw [hgiven ws hws]; omega)
    refine ⟨cursor, hrest.trans (congrArg some ?_)⟩
    rw [Sorting.mk.injEq]
    refine ⟨rfl, rfl, ?_⟩
    rw [Option.map_map]
    refine Option.map_congr fun out hout => ?_
    obtain ⟨ws, hws⟩ := Option.isSome_iff_exists.1 (h.given.symm.trans (Option.isSome_of_mem hout))
    have hlt := hposition ws hws
    rw [Function.comp_apply, slotsFrom, ← List.tail_drop]
    exact writeAll_zip_cons _ _ _ (by simp [hws, hlt])

end Placing

/-! ## All loops -/

variable {W : Type} [Weight W] {b : Builder W}

theorem size_countSources (slots : Nat) (rs : Array (NodeId × NodeId)) :
    (countSources slots rs).size = slots := by
  rw [← Array.length_toList, toList_countSources, List.length_map, List.length_range]

theorem size_sumOffsets (counts : Array Nat) : (sumOffsets counts).size = counts.size := by
  obtain ⟨counts⟩ := counts
  rw [sumOffsets_eq, List.size_toArray, List.length_map, List.length_range, List.size_toArray]

/-- The loops never leave an array of a sound builder, and leave the table of its rows behind. -/
theorem Sound.freeze?_eq (h : b.Sound) :
    b.freeze? =
      some (OffsetTable.ofRows b.weights.isSome (rowsOf b.nodeCount.toNat b.stored)) := by
  have hsource : ∀ r ∈ b.relationships.toList, r.1.index < b.nodeCount.toNat := fun r hr =>
    UInt64.lt_iff_toNat_lt.1 (h.nodes r hr).1
  set counts := countSources (b.nodeCount.toNat + 1) b.relationships with hcounts
  have hslots := places_lt hsource
  rw [Array.toArray_toList, ← hcounts, toList_places] at hslots
  have hsize : counts.size = b.nodeCount.toNat + 1 := size_countSources _ _
  let start : Sorting W :=
    { cursor := sumOffsets counts
      targets := Array.replicate b.relationships.size default
      weights := b.weights.map fun ws => Array.replicate ws.size Weight.unit }
  have hfits : start.Fits b.weights := by
    refine ⟨fun out hout => ?_, Option.isSome_map⟩
    obtain ⟨ws, hws, rfl⟩ := Option.map_eq_some_iff.1 hout
    simp [start, (h.weights ws hws).1]
  have hcursor : ∀ r ∈ b.relationships.toList, r.1.index < start.cursor.size := fun r hr => by
    have := hsource r hr
    rw [size_sumOffsets]
    omega
  obtain ⟨cursor, hloop⟩ := Sorting.foldlM_take? 0 hfits hcursor
    (fun p hp => by simpa [start] using hslots p hp)
    (fun ws hws => by simpa using (h.weights ws hws).1)
  rw [← h.frozen_eq, freeze?, countSources?_eq hsource, Array.toArray_toList, ← hcounts]
  simp only [Option.bind_eq_bind, Option.bind_some]
  rw [← hsize, sumOffsets?_eq, Option.bind_some, hloop, Option.bind_some]
  refine congrArg some ?_
  rw [OffsetTable.mk.injEq]
  refine ⟨rfl, ?_, ?_⟩
  · rw [place_eq_writeAll, toList_places, Array.size_map, Array.toList_map]
  · rw [Option.map_map]
    refine Option.map_congr fun ws hws => ?_
    rw [Function.comp_apply, place_eq_writeAll, toList_places, Option.mem_def.1 hws]
    rfl

/-! ## What is frozen -/

/-- The builders that constructors, additions and copies lead to. A copy stores relationships
    without a test: their end points are nodes, and either all or none of them have weights. -/
inductive Filled : Builder W → Prop where
  | new (nodeCount : UInt64) : Filled (new nodeCount)
  | undirected {b : Builder W} (h : Filled b) : Filled b.asUndirected
  | added {b b' : Builder W} {source target : NodeId} {weight : Option W} (h : Filled b)
      (hadd : b.addEither source target weight = .ok b') : Filled b'
  | copied {b : Builder W} {source target : NodeId} {weight : Option W} (h : Filled b)
      (hsource : source.val < b.nodeCount) (htarget : target.val < b.nodeCount)
      (hagrees : b.Agrees weight) : Filled (b.push source target weight)

theorem Filled.sound (h : b.Filled) : b.Sound := by
  induction h with
  | new nodeCount => exact .new nodeCount
  | undirected _ ih => exact ih.asUndirected
  | added _ hadd ih =>
    obtain ⟨haccepts, rfl⟩ := (addEither_eq_ok_iff ih).1 hadd
    exact haccepts.sound_push ih
  | copied _ hsource htarget hagrees ih => exact ih.push hsource htarget hagrees

end Builder

namespace OffsetTable

variable {W : Type} {weighted : Bool} {rows : List (List (NodeId × W))}

/-- The arrays of a table of `n` nodes and `m` relationships fit each other: the offsets lead from
    the start of the targets to their end and never back. -/
structure WellFormed (t : OffsetTable W) (n m : Nat) : Prop where
  size : t.offsets.size = n + 1
  first : t.offsets[0]? = some 0
  sorted : ∀ (i j start stop : Nat), i ≤ j → t.offsets[i]? = some start →
    t.offsets[j]? = some stop → start ≤ stop
  last : t.offsets[n]? = some m
  targets : t.targets.size = m
  weights : ∀ ws ∈ t.weights, ws.size = m

theorem offsets_ofRows {i : Nat} (h : i ≤ rows.length) :
    (ofRows weighted rows).offsets[i]? = some (rowStart rows i) := by
  simp [ofRows, Nat.lt_succ_of_le h]

theorem rowStart_mono {i j : Nat} (h : i ≤ j) (hj : j ≤ rows.length) :
    rowStart rows i ≤ rowStart rows j := by
  induction j, h using Nat.le_induction with
  | base => exact le_rfl
  | succ j _ ih => exact (ih (by omega)).trans (rowStart_le_succ (by omega))

theorem wellFormed_ofRows :
    (ofRows weighted rows).WellFormed rows.length rows.flatten.length where
  size := by simp [ofRows]
  first := by simp [offsets_ofRows, rowStart]
  sorted i j start stop hij hi hj := by
    have hlt : j < rows.length + 1 := by
      simpa [ofRows] using (Array.getElem?_eq_some_iff.1 hj).1
    rw [offsets_ofRows (by omega)] at hi hj
    rw [← Option.some.inj hi, ← Option.some.inj hj]
    exact rowStart_mono hij (by omega)
  last := by rw [offsets_ofRows le_rfl, rowStart, List.take_length]
  targets := size_targets_ofRows
  weights ws hws := by
    cases weighted with
    | false => cases hws
    | true =>
      obtain rfl := Option.some.inj hws
      rw [List.size_toArray, List.length_map]

end OffsetTable

namespace Builder

variable {W : Type} [Weight W] {b : Builder W}

theorem Sound.length_stored (h : b.Sound) : b.stored.length = b.size := by
  rw [size, h.relationships_eq, List.size_toArray, List.length_map]

theorem Sound.targets_of_row (h : b.Sound) (node : NodeId) :
    ((b.stored.filter fun e => e.1.index = node.index).map Prod.snd).map Prod.fst =
      (b.relationships.toList.filter fun r => r.1 = node).map Prod.snd := by
  simp only [NodeId.index_inj]
  rw [h.relationships_eq, List.toList_toArray, List.filter_map, List.map_map, List.map_map]
  rfl

theorem weights_of_row {ws : Array W} (hws : b.weights = some ws) (node : NodeId) :
    ((b.stored.filter fun e => e.1.index = node.index).map Prod.snd).map Prod.snd =
      ((b.relationships.toList.zip ws.toList).filter fun z => z.1.1 = node).map Prod.snd := by
  simp only [NodeId.index_inj, stored, hws]
  rw [List.filter_map, List.map_map, List.map_map]
  rfl

/-- A builder that constructors, additions and copies lead to is frozen if the arrays fit, by loops
    that never leave an array. The table is well formed, and weighted if the builder is. The
    stretch of a node holds the targets of the relationships that leave it, in the order of their
    addition, and in a weighted table the weights of the same relationships. -/
theorem build_sorts [Memory.Allocator] (h : b.Filled)
    (hfits : Allocatable b.nodeCount.toNat b.size) :
    ∃ t, b.build = .ok t ∧ b.freeze? = some t ∧ t.WellFormed b.nodeCount.toNat b.size ∧
      t.weights.isSome = b.weights.isSome ∧
      ∀ node : NodeId, node.val < b.nodeCount → ∃ first last,
        t.offsets[node.index]? = some first ∧ t.offsets[node.index + 1]? = some last ∧
        (t.targets.extract first last).toList =
          (b.relationships.toList.filter fun r => r.1 = node).map Prod.snd ∧
        ∀ ws ∈ b.weights, ∀ ws' ∈ t.weights, (ws'.extract first last).toList =
          ((b.relationships.toList.zip ws.toList).filter fun z => z.1.1 = node).map Prod.snd := by
  have hsound := h.sound
  have hlength := length_rowsOf b.nodeCount.toNat b.stored
  refine ⟨_, build_eq hsound hfits, hsound.freeze?_eq, ?_, OffsetTable.isSome_weights_ofRows,
    fun node hnode => ?_⟩
  · rw [← hsound.length_stored, ← length_flatten_rowsOf hsound.source_lt]
    convert OffsetTable.wellFormed_ofRows
    exact hlength.symm
  · have hlt : node.index < (rowsOf b.nodeCount.toNat b.stored).length := by
      rw [hlength]
      exact UInt64.lt_iff_toNat_lt.1 hnode
    refine ⟨_, _, OffsetTable.offsets_ofRows hlt.le, OffsetTable.offsets_ofRows hlt, ?_, ?_⟩
    · rw [← hsound.targets_of_row, ← getElem_rowsOf b.stored hlt]
      exact OffsetTable.extract_map_flatten Prod.fst hlt
    · intro ws hws ws' hws'
      rw [OffsetTable.ofRows, Option.isSome_of_mem hws] at hws'
      obtain rfl := Option.some.inj hws'
      rw [← weights_of_row hws, ← getElem_rowsOf b.stored hlt]
      exact OffsetTable.extract_map_flatten Prod.snd hlt

/-- A weighted builder whose relationships are not in the order of their sources. -/
def threeStored : Builder Float :=
  (((new 3).push ⟨1⟩ ⟨2⟩ (some 0.5)).push ⟨0⟩ ⟨0⟩ (some 1.5)).push ⟨1⟩ ⟨0⟩ (some 2.5)

theorem filled_threeStored : threeStored.Filled :=
  (((Filled.new 3).copied (by decide) (by decide) (.inl rfl)).copied (by decide) (by decide)
    (.inr rfl)).copied (by decide) (by decide) (.inr rfl)

theorem build_sorts_threeStored :
    ∃ t, threeStored.build = .ok t ∧ threeStored.freeze? = some t ∧ t.WellFormed 3 3 ∧
      ∃ first last, t.offsets[1]? = some first ∧ t.offsets[2]? = some last ∧
        (t.targets.extract first last).toList = [⟨2⟩, ⟨0⟩] ∧
        ∀ ws ∈ t.weights, (ws.extract first last).toList = [0.5, 2.5] := by
  obtain ⟨t, hbuild, hfreeze, hformed, -, hrows⟩ :=
    build_sorts filled_threeStored ⟨by decide, by decide⟩
  obtain ⟨first, last, hfirst, hlast, htargets, hweights⟩ := hrows ⟨1⟩ (by decide)
  exact ⟨t, hbuild, hfreeze, hformed, first, last, hfirst, hlast, htargets,
    hweights #[0.5, 1.5, 2.5] rfl⟩

end Builder

end Superstep
