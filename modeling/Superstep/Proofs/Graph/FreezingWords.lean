import Superstep.Proofs.Graph.Freezing

/-!
# Freezing with words

`Builder.freeze?` checks every access to an array, but counts with natural numbers. Here the numbers
are machine words: a sum that is no word ends the loops like an index that is out of bounds.
`Builder.build?` is all of `Builder.build` in this way, with the number of offsets computed from the
node count and each array reserved before it is filled.

No count exceeds the number of relationships, and no cursor twice this number. As the relationships
have been reserved, both are words.

Results: `Sound.freezeWords?_eq` and `Sound.build?_eq`, nothing overflows for a sound builder, and
what is frozen is the same.
-/

namespace Superstep

namespace Builder

variable {W : Type}

/-! ## The loops -/

/-- Adds to an element of an array, which must have it. The sum must be a word. -/
def raise? (items : Array Nat) (i amount : Nat) : Option (Array Nat) := do
  let x ← items[i]?
  if x + amount < wordLimit then modify? items i (· + amount) else none

/-- Counts the relationships that leave node `i` at `i + 1`. -/
def countWords? (slots : Nat) (rs : List (NodeId × NodeId)) : Option (Array Nat) :=
  rs.foldlM (fun counts r => raise? counts (r.1.index + 1) 1) (Array.replicate slots 0)

/-- Adds the entry before position `i` to the entry there. -/
def sumWordStep? (sums : Array Nat) (i : Nat) : Option (Array Nat) := do
  let before ← sums[i - 1]?
  raise? sums i before

/-- Turns `slots` counts into running sums, from the second entry on. -/
def sumWords? (slots : Nat) (counts : Array Nat) : Option (Array Nat) :=
  (List.range' 1 (slots - 1)).foldlM sumWordStep? counts

/-- Writes a relationship to the next free place of its source, and moves the cursor on. -/
def Sorting.takeWord? (given : Option (Array W)) (s : Sorting W) (r : (NodeId × NodeId) × Nat) :
    Option (Sorting W) := do
  let sorted ← s.take? given r
  let cursor ← raise? s.cursor r.1.1.index 1
  return { sorted with cursor }

/-- The three loops, one after the other. -/
def freezeWords? [Weight W] (b : Builder W) : Option (OffsetTable W) := do
  let slots := b.nodeCount.toNat + 1
  let counts ← countWords? slots b.relationships.toList
  let offsets ← sumWords? slots counts
  let sorted ← b.relationships.toList.zipIdx.foldlM (Sorting.takeWord? b.weights)
    { cursor := offsets
      targets := Array.replicate b.relationships.size default
      weights := b.weights.map fun ws => Array.replicate ws.size Weight.unit }
  return { offsets, targets := sorted.targets, weights := sorted.weights }

/-- Reserves the arrays of a table and the cursors. -/
def reserveTable [Memory.Allocator] (b : Builder W) : Except GraphError Unit :=
  match Word.add? b.nodeCount 1 with
  | none => .error (.resourceExhausted "node offsets" b.nodeCount.toNat)
  | some slots => do
    GraphError.reserve "node offsets" slots.toNat Memory.wordBytes
    GraphError.reserve "node offsets" slots.toNat Memory.wordBytes
    GraphError.reserve "relationships" b.relationships.size Memory.wordBytes
    match b.weights with
    | some weights => GraphError.reserve "relationship weights" weights.size Memory.wordBytes
    | none => pure ()

/-- Freezes the relationships into an offset table, if the arrays can be reserved. -/
def build? [Memory.Allocator] [Weight W] (b : Builder W) :
    Option (Except GraphError (OffsetTable W)) :=
  match b.reserveTable with
  | .error e => some (.error e)
  | .ok () => b.freezeWords?.map .ok

/-! ## Words -/

/-- Two loops give the same if they take the same steps in the states that one of them reaches. -/
theorem foldlM_congr_run {α β : Type} {f g : β → α → Option β} {xs : List α} {s : β}
    (h : ∀ i (hi : i < xs.length) s', (xs.take i).foldlM g s = some s' → f s' xs[i] = g s' xs[i]) :
    xs.foldlM f s = xs.foldlM g s := by
  induction xs generalizing s with
  | nil => rfl
  | cons x xs ih =>
    have hfirst : f s x = g s x := h 0 (Nat.zero_lt_succ _) s rfl
    rw [List.foldlM_cons, List.foldlM_cons, hfirst]
    cases hg : g s x with
    | none => rfl
    | some s₁ =>
      refine ih fun i hi s' hs' => h (i + 1) (Nat.succ_lt_succ hi) s' ?_
      rw [List.take_succ_cons, List.foldlM_cons, hg]
      exact hs'

section Additions

variable {items items' : Array Nat} {i amount bound : Nat}

theorem raise?_eq (h : ∀ items' ∈ modify? items i (· + amount), ∀ x ∈ items', x < wordLimit) :
    raise? items i amount = modify? items i (· + amount) := by
  by_cases hi : i < items.size
  · have hmem : items[i] + amount ∈ items.modify i (· + amount) :=
      Array.mem_iff_getElem.2 ⟨i, by simpa using hi, by rw [Array.getElem_modify_self]⟩
    have hword := h _ (modify?_of_lt hi _) _ hmem
    simp [raise?, Array.getElem?_eq_getElem hi, hword]
  · simp [raise?, modify?, hi]

theorem le_of_modify? (h : ∀ x ∈ items, x ≤ bound)
    (hmodify : modify? items i (· + amount) = some items') : ∀ x ∈ items', x ≤ bound + amount := by
  unfold modify? at hmodify
  split at hmodify
  · obtain rfl := Option.some.inj hmodify
    intro x hx
    obtain ⟨j, hj, rfl⟩ := Array.mem_iff_getElem.1 hx
    have hentry := h _ (Array.getElem_mem (by simpa using hj : j < items.size))
    rw [Array.getElem_modify]
    split <;> omega
  · cases hmodify

end Additions

/-! ## Counting and summing up -/

/-- A count is at most the number of relationships that have been counted. -/
theorem le_of_countSources {rs : List (NodeId × NodeId)} {counts counts' : Array Nat} {bound : Nat}
    (h : ∀ x ∈ counts, x ≤ bound)
    (hrun : rs.foldlM (fun counts r => modify? counts (r.1.index + 1) (· + 1)) counts =
      some counts') : ∀ x ∈ counts', x ≤ bound + rs.length := by
  induction rs generalizing counts bound with
  | nil =>
    obtain rfl := Option.some.inj hrun
    exact h
  | cons r rs ih =>
    rw [List.foldlM_cons, Option.bind_eq_bind, Option.bind_eq_some_iff] at hrun
    obtain ⟨next, hnext, hrest⟩ := hrun
    rw [List.length_cons, Nat.add_comm rs.length, ← Nat.add_assoc]
    exact ih (le_of_modify? h hnext) hrest

theorem countWords?_eq {slots : Nat} {rs : List (NodeId × NodeId)} (h : rs.length < wordLimit) :
    countWords? slots rs = countSources? slots rs := by
  refine foldlM_congr_run fun i hi counts hrun => raise?_eq fun counts' hcounts' x hx => ?_
  have hzero : ∀ x ∈ Array.replicate slots 0, x ≤ 0 := by simp
  have hcounts := le_of_countSources hzero hrun
  have hle := le_of_modify? hcounts hcounts' x hx
  rw [List.length_take] at hle
  omega

/-- While counts are summed up, no entry exceeds the largest offset. -/
theorem le_of_mem_partialSums {counts : List Nat} {bound k : Nat}
    (h : ∀ x ∈ sumOffsets counts.toArray, x ≤ bound) : ∀ x ∈ partialSums counts k, x ≤ bound := by
  have hsum : ∀ j < counts.length, (counts.take (j + 1)).sum ≤ bound := fun j hj => by
    refine h _ ?_
    rw [sumOffsets_eq, List.mem_toArray]
    exact List.mem_map_of_mem (List.mem_range.2 hj)
  intro x hx
  rw [partialSums, List.mem_toArray] at hx
  obtain ⟨j, hj, rfl⟩ := List.mem_map.1 hx
  have hj := List.mem_range.1 hj
  have hle := hsum j hj
  split
  · exact hle
  · rw [List.sum_take_succ counts j hj] at hle
    simp only [List.getD_eq_getElem?_getD, List.getElem?_eq_getElem hj, Option.getD_some]
    omega

theorem sumWords?_eq {counts : Array Nat} (h : ∀ x ∈ sumOffsets counts, x < wordLimit) :
    sumWords? counts.size counts = sumOffsets? counts.size counts := by
  obtain ⟨counts⟩ := counts
  refine foldlM_congr_run fun i hi sums hrun => ?_
  have hi : i < counts.length - 1 := by simpa using hi
  have htake : (List.range' 1 (counts.length - 1)).take i = List.range' 1 i :=
    List.ext_getElem (by simp; omega) (by simp)
  rw [List.size_toArray, htake, foldlM_sumStep? (by omega)] at hrun
  obtain rfl := Option.some.inj hrun
  have hstep : sumStep? (partialSums counts i) (i + 1) = some (partialSums counts (i + 1)) :=
    sumStep?_partialSums (by omega)
  rw [List.getElem_range', Nat.one_mul, Nat.add_comm, sumWordStep?, sumStep?]
  rw [sumStep?] at hstep
  refine Option.bind_congr fun before hbefore => raise?_eq fun sums hsums x hx => ?_
  rw [hbefore, Option.bind_eq_bind, Option.bind_some, Option.mem_def.1 hsums] at hstep
  obtain rfl := Option.some.inj hstep
  have hle := le_of_mem_partialSums (fun x hx => Nat.le_sub_one_of_lt (h x hx)) x hx
  exact Nat.lt_of_le_of_lt hle (by decide)

/-! ## Placing -/

section Placing

variable {given : Option (Array W)} {s s' : Sorting W}

/-- Placing a relationship moves the cursor of its source on by one. -/
theorem Sorting.cursor_of_take? {r : (NodeId × NodeId) × Nat} (h : s.take? given r = some s') :
    modify? s.cursor r.1.1.index (· + 1) = some s'.cursor := by
  simp only [take?, Option.bind_eq_bind, Option.bind_eq_some_iff] at h
  obtain ⟨slot, -, cursor, hcursor, targets, -, h⟩ := h
  rw [hcursor]
  split at h
  · simp only [Option.bind_eq_some_iff] at h
    obtain ⟨w, -, out, -, weights, -, hs'⟩ := h
    exact congrArg (fun s => some s.cursor) (Option.some.inj hs')
  · obtain ⟨weights, -, hs'⟩ := Option.bind_eq_some_iff.1 h
    exact congrArg (fun s => some s.cursor) (Option.some.inj hs')

theorem Sorting.takeWord?_eq {r : (NodeId × NodeId) × Nat}
    (h : ∀ x ∈ s.cursor, x + 1 < wordLimit) : s.takeWord? given r = s.take? given r := by
  rw [takeWord?]
  cases hs' : s.take? given r with
  | none => rfl
  | some s' =>
    have hcursor := cursor_of_take? hs'
    have hraise : raise? s.cursor r.1.1.index 1 = some s'.cursor := by
      rw [raise?_eq, hcursor]
      have hbound : ∀ x ∈ s.cursor, x ≤ wordLimit - 2 := fun x hx => by
        have := h x hx
        omega
      intro items hitems x hx
      exact Nat.lt_of_le_of_lt (le_of_modify? hbound hitems x hx) (by decide)
    simp [hraise]

/-- A cursor has been moved on at most as often as relationships have been placed. -/
theorem Sorting.le_of_takes {rs : List ((NodeId × NodeId) × Nat)} {bound : Nat}
    (h : ∀ x ∈ s.cursor, x ≤ bound) (hrun : rs.foldlM (Sorting.take? given) s = some s') :
    ∀ x ∈ s'.cursor, x ≤ bound + rs.length := by
  induction rs generalizing s bound with
  | nil =>
    obtain rfl := Option.some.inj hrun
    exact h
  | cons r rs ih =>
    rw [List.foldlM_cons, Option.bind_eq_bind, Option.bind_eq_some_iff] at hrun
    obtain ⟨next, hnext, hrest⟩ := hrun
    rw [List.length_cons, Nat.add_comm rs.length, ← Nat.add_assoc]
    exact ih (le_of_modify? h (cursor_of_take? hnext)) hrest

end Placing

/-! ## Freezing -/

variable [Weight W] {b : Builder W}

/-- Nothing overflows while a sound builder is frozen, if it has no more relationships than could
    have been reserved. -/
theorem Sound.freezeWords?_eq (h : b.Sound) (hsize : 2 * b.size < wordLimit) :
    b.freezeWords? = b.freeze? := by
  have hsource : ∀ r ∈ b.relationships.toList, r.1.index < b.nodeCount.toNat := fun r hr =>
    UInt64.lt_iff_toNat_lt.1 (h.nodes r hr).1
  have hlength : b.relationships.toList.length = b.size := Array.length_toList
  rw [freezeWords?, freeze?, countWords?_eq (by omega), countSources?_eq hsource,
    Array.toArray_toList]
  set counts := countSources (b.nodeCount.toNat + 1) b.relationships with hcounts
  have hslots : counts.size = b.nodeCount.toNat + 1 := size_countSources _ _
  -- an offset is a number of relationships
  have hoffsets : ∀ x ∈ sumOffsets counts, x ≤ b.size := by
    intro x hx
    rw [hcounts, sumOffsets_countSources, List.mem_toArray] at hx
    obtain ⟨j, -, rfl⟩ := List.mem_map.1 hx
    exact List.countP_le_length
  simp only [Option.bind_eq_bind, Option.bind_some]
  rw [← hslots, sumWords?_eq (fun x hx => by have := hoffsets x hx; omega), sumOffsets?_eq,
    Option.bind_some, Option.bind_some]
  refine congrArg (Option.bind · _) (foldlM_congr_run fun i hi s hrun =>
    Sorting.takeWord?_eq fun x hx => ?_)
  have hle := Sorting.le_of_takes hoffsets hrun x hx
  rw [List.length_zipIdx] at hi
  rw [List.length_take, List.length_zipIdx] at hle
  omega

/-- Freezing is reserving and then sorting. -/
theorem build_eq_bind [Memory.Allocator] (b : Builder W) :
    b.build = b.reserveTable >>= fun _ => .ok
      (let offsets := sumOffsets (countSources (b.nodeCount.toNat + 1) b.relationships)
        let slotOf := places offsets b.relationships
        { offsets
          targets := place default slotOf (b.relationships.map Prod.snd)
          weights := b.weights.map (place Weight.unit slotOf) }) := by
  unfold build reserveTable
  by_cases hslots : wordLimit ≤ b.nodeCount.toNat + 1
  · have hnone : Word.add? b.nodeCount 1 = none := if_neg (Nat.not_lt.2 hslots)
    simp only [hslots, ↓reduceIte, hnone]
    rfl
  · have hlt : b.nodeCount.toNat + (1 : UInt64).toNat < wordLimit := Nat.not_le.1 hslots
    have hadd := Word.add?_of_lt hlt
    have hslot : (b.nodeCount + 1).toNat = b.nodeCount.toNat + 1 := Word.toNat_add_of_lt hlt
    simp only [hslots, ↓reduceIte, hadd, hslot]
    cases GraphError.reserve "node offsets" (b.nodeCount.toNat + 1) Memory.wordBytes with
    | error e => rfl
    | ok _ =>
      cases GraphError.reserve "relationships" b.relationships.size Memory.wordBytes with
      | error e => rfl
      | ok _ => cases b.weights <;> rfl

/-- Nothing overflows and no index is out of bounds when a sound builder is frozen. -/
theorem Sound.build?_eq [Memory.Allocator] (h : b.Sound) : b.build? = some b.build := by
  have hbuild := b.build_eq_bind
  rw [build?]
  cases hreserve : b.reserveTable with
  | error e =>
    rw [hreserve] at hbuild
    rw [hbuild]
    rfl
  | ok u =>
    rw [hreserve] at hbuild
    have hfits := Memory.le_addressSpace_of_fits (allocatable_of_build hbuild).2
    have hsize : 2 * b.size < wordLimit := by
      simp only [Memory.wordBytes, Memory.addressSpace, wordLimit, size] at hfits ⊢
      omega
    dsimp only
    rw [h.freezeWords?_eq hsize, h.freeze?_eq, hbuild, ← h.frozen_eq]
    rfl

end Builder

end Superstep
