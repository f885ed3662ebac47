import Mathlib.Data.List.Induction
import Mathlib.Data.List.Zip
import Superstep.Proofs.Graph.Builder
import Superstep.Proofs.Graph.Rows

/-!
# Freezing a builder is a stable counting sort

The three passes of a counting sort, each with what it computes: the counts and their running sums
are the numbers of relationships whose source comes before a node (`sumOffsets_countSources`); the
places that the cursors hand out are, node by node, consecutive from its offset (`Placed.slots`) and
never the same twice (`Placed.nodup`); writing to places that differ keeps everything that is
written (`getElem?_place`). So each node finds its own relationships in its stretch, in the order in
which they were added, and the stretches of all nodes are the whole array (`place_places`).

Result: `build_eq`, a sound builder is frozen into the table of its rows if the arrays fit.
-/

namespace Superstep

/-- Things can be rearranged by a key, those with one key after those with a smaller one. -/
theorem perm_flatMap_filter {α : Type} {xs : List α} (key : α → Nat) {n : Nat}
    (h : ∀ x ∈ xs, key x < n) :
    xs.Perm ((List.range n).flatMap fun k => xs.filter fun x => key x = k) := by
  have hbelow : ∀ m, (xs.filter fun x => key x < m).Perm
      ((List.range m).flatMap fun k => xs.filter fun x => key x = k) := by
    intro m
    induction m with
    | zero => simp
    | succ m ih =>
      rw [List.range_succ, List.flatMap_append]
      refine ((List.filter_append_perm (fun x => key x < m)
        (xs.filter fun x => key x < m + 1)).symm.trans ?_)
      rw [List.filter_filter, List.filter_filter]
      have hlow : (xs.filter fun x => decide (key x < m) && decide (key x < m + 1)) =
          xs.filter fun x => key x < m :=
        List.filter_congr fun x _ => by
          rw [← Bool.decide_and]
          exact decide_eq_decide.2 (by omega)
      have hhigh : (xs.filter fun x => !decide (key x < m) && decide (key x < m + 1)) =
          xs.filter fun x => key x = m :=
        List.filter_congr fun x _ => by
          rw [← decide_not, ← Bool.decide_and]
          exact decide_eq_decide.2 (by omega)
      rw [hlow, hhigh]
      simpa using ih.append_right _
  have hall : xs.filter (fun x => key x < n) = xs :=
    List.filter_eq_self.2 fun x hx => by simpa using h x hx
  have hn := hbelow n
  rwa [hall] at hn

namespace Builder

variable {W : Type}

/-! ## Counts and offsets -/

section Counts

variable {rs : List (NodeId × NodeId)} {i n : Nat}

/-- The number of relationships that leave a node. -/
def leaving (rs : List (NodeId × NodeId)) (i : Nat) : Nat := rs.countP fun r => r.1.index = i

/-- The number of relationships whose source comes before a node. -/
def before (rs : List (NodeId × NodeId)) (i : Nat) : Nat := rs.countP fun r => r.1.index < i

theorem before_succ (rs : List (NodeId × NodeId)) (i : Nat) :
    before rs (i + 1) = before rs i + leaving rs i := by
  unfold before leaving
  induction rs with
  | nil => rfl
  | cons r rs ih =>
    simp only [List.countP_cons, decide_eq_true_eq]
    split_ifs <;> omega

theorem leaving_concat (rs : List (NodeId × NodeId)) (r : NodeId × NodeId) (i : Nat) :
    leaving (rs ++ [r]) i = leaving rs i + if r.1.index = i then 1 else 0 := by
  simp [leaving, List.countP_append, List.countP_singleton]

@[simp] theorem before_zero (rs : List (NodeId × NodeId)) : before rs 0 = 0 := by
  simp [before]

theorem before_mono (rs : List (NodeId × NodeId)) {i j : Nat} (h : i ≤ j) :
    before rs i ≤ before rs j :=
  List.countP_mono_left fun r _ hr => by simp at hr ⊢; omega

theorem before_eq_length (h : ∀ r ∈ rs, r.1.index < n) : before rs n = rs.length :=
  List.countP_eq_length.2 fun r hr => by simpa using h r hr

theorem getElem?_foldl_modify (rs : List (NodeId × NodeId)) (counts : Array Nat) (j : Nat) :
    (rs.foldl (fun counts r => counts.modify (r.1.index + 1) (· + 1)) counts)[j]? =
      counts[j]?.map (· + rs.countP fun r => r.1.index + 1 = j) := by
  induction rs generalizing counts with
  | nil => simp
  | cons r rs ih =>
    rw [List.foldl_cons, ih, Array.getElem?_modify, List.countP_cons]
    split <;> cases counts[j]? <;> simp_all [Nat.add_assoc, Nat.add_comm]

theorem toList_countSources (slots : Nat) (rs : Array (NodeId × NodeId)) :
    (countSources slots rs).toList =
      (List.range slots).map fun j => rs.toList.countP fun r => r.1.index + 1 = j := by
  refine List.ext_getElem? fun j => ?_
  rw [Array.getElem?_toList, countSources, ← Array.foldl_toList, getElem?_foldl_modify,
    Array.getElem?_replicate, List.getElem?_map]
  split
  · next h => simp [List.getElem?_range h]
  · next h => simp [List.getElem?_eq_none (by simpa using h : (List.range slots).length ≤ j)]

/-- The running total is the number before the last node that has been passed. -/
theorem foldl_sums (rs : List (NodeId × NodeId)) (k : Nat) :
    ((List.range k).map fun j => rs.countP fun r => r.1.index + 1 = j).foldl
      (fun (sums, total) count => (sums.push (total + count), total + count)) (#[], 0) =
      (((List.range k).map (before rs)).toArray, before rs (k - 1)) := by
  induction k with
  | zero => simp
  | succ k ih =>
    have hstep : before rs (k - 1) + (rs.countP fun r => r.1.index + 1 = k) = before rs k := by
      cases k with
      | zero => simp
      | succ k =>
        rw [before_succ, leaving, Nat.add_sub_cancel]
        simp
    rw [List.range_succ, List.map_append, List.foldl_append, ih]
    simp [hstep]

theorem sumOffsets_countSources (slots : Nat) (rs : Array (NodeId × NodeId)) :
    sumOffsets (countSources slots rs) = ((List.range slots).map (before rs.toList)).toArray := by
  rw [sumOffsets, ← Array.foldl_toList, toList_countSources, foldl_sums]

end Counts

/-! ## Places -/

/-- The places `slots` of the relationships `rs`: those of the relationships that leave a node are
    consecutive from the offset of the node. -/
structure Placed (offset : Nat → Nat) (rs : List (NodeId × NodeId)) (slots : List Nat) : Prop where
  length : slots.length = rs.length
  row : ∀ i, ((rs.zip slots).filter fun z => z.1.1.index = i).map Prod.snd =
    List.range' (offset i) (leaving rs i)

namespace Placed

variable {offset : Nat → Nat} {rs : List (NodeId × NodeId)} {slots : List Nat} {n : Nat}

theorem nil : Placed offset [] [] := ⟨rfl, fun _ => rfl⟩

theorem snoc (h : Placed offset rs slots) (r : NodeId × NodeId) :
    Placed offset (rs ++ [r]) (slots ++ [offset r.1.index + leaving rs r.1.index]) where
  length := by simp [h.length]
  row i := by
    rw [List.zip_append h.length.symm, List.filter_append, List.map_append, h.row, leaving_concat]
    by_cases hi : r.1.index = i
    · subst hi
      simp [List.range'_concat]
    · simp [hi]

theorem mem_stretch (h : Placed offset rs slots) {z : (NodeId × NodeId) × Nat}
    (hz : z ∈ rs.zip slots) :
    offset z.1.1.index ≤ z.2 ∧ z.2 < offset z.1.1.index + leaving rs z.1.1.index := by
  have hmem : z.2 ∈ ((rs.zip slots).filter fun z' => z'.1.1.index = z.1.1.index).map Prod.snd :=
    List.mem_map_of_mem (List.mem_filter.2 ⟨hz, by simp⟩)
  rwa [h.row, List.mem_range'_1] at hmem

theorem lt {bound : Nat} (h : Placed offset rs slots) (hsource : ∀ r ∈ rs, r.1.index < n)
    (hbound : ∀ i < n, offset i + leaving rs i ≤ bound) : ∀ p ∈ slots, p < bound := by
  intro p hp
  rw [← List.map_snd_zip (Nat.le_of_eq h.length)] at hp
  obtain ⟨z, hz, rfl⟩ := List.mem_map.1 hp
  exact Nat.lt_of_lt_of_le (h.mem_stretch hz).2 (hbound _ (hsource _ (List.of_mem_zip hz).1))

/-- If the stretches of the nodes do not overlap, no place is given twice. -/
theorem nodup (h : Placed offset rs slots) (hsource : ∀ r ∈ rs, r.1.index < n)
    (hoffset : ∀ i j, i < j → j < n → offset i + leaving rs i ≤ offset j) : slots.Nodup := by
  have hslots : slots = (rs.zip slots).map Prod.snd := by
    rw [List.map_snd_zip (Nat.le_of_eq h.length)]
  rw [hslots, List.Nodup, List.pairwise_map, List.pairwise_iff_getElem]
  intro k l hk hl hkl heq
  have hzk := List.getElem_mem hk
  have hzl := List.getElem_mem hl
  generalize hx : (rs.zip slots)[k] = x at *
  generalize hy : (rs.zip slots)[l] = y at *
  have hxs := h.mem_stretch hzk
  have hys := h.mem_stretch hzl
  have hxn := hsource _ (List.of_mem_zip hzk).1
  have hyn := hsource _ (List.of_mem_zip hzl).1
  rcases Nat.lt_trichotomy x.1.1.index y.1.1.index with hlt | hsame | hgt
  · have := hoffset _ _ hlt hyn
    omega
  · -- two places of one node are two members of a range
    have hrow : ((rs.zip slots).filter fun z => z.1.1.index = x.1.1.index).Pairwise
        fun z z' => z.2 ≠ z'.2 := by
      rw [← List.pairwise_map, h.row]
      exact List.nodup_range'
    rw [List.pairwise_filter, List.pairwise_iff_getElem] at hrow
    have := hrow k l hk hl hkl
    rw [hx, hy] at this
    exact this (by simp) (by simp [hsame]) heq
  · have := hoffset _ _ hgt hxn
    omega

end Placed

theorem getD_modify {cursor : Array Nat} {i : Nat} (h : i < cursor.size) (j : Nat) :
    (cursor.modify j (· + 1)).getD i 0 = cursor.getD i 0 + if j = i then 1 else 0 := by
  simp only [Array.getD, Array.size_modify, h, ↓reduceDIte, Array.getInternal_eq_getElem,
    Array.getElem_modify]
  split <;> rfl

/-- The cursors hand out the places. -/
theorem placed_places {offsets : Array Nat} {rs : Array (NodeId × NodeId)}
    (h : ∀ r ∈ rs.toList, r.1.index < offsets.size) :
    Placed (fun i => offsets.getD i 0) rs.toList (places offsets rs).toList := by
  -- each cursor has passed as many places as relationships that leave its node
  have hfold : ∀ l : List (NodeId × NodeId), (∀ r ∈ l, r.1.index < offsets.size) →
      let s := l.foldl (fun s r =>
        (s.1.push (s.2.getD r.1.index 0), s.2.modify r.1.index (· + 1))) (#[], offsets)
      Placed (fun i => offsets.getD i 0) l s.1.toList ∧ s.2.size = offsets.size ∧
        ∀ i < offsets.size, s.2.getD i 0 = offsets.getD i 0 + leaving l i := by
    intro l hl
    induction l using List.reverseRecOn with
    | nil => exact ⟨Placed.nil, rfl, fun i _ => by simp [leaving]⟩
    | append_singleton l r ih =>
      rw [List.forall_mem_append, List.forall_mem_singleton] at hl
      obtain ⟨hplaced, hsize, hcursor⟩ := ih hl.1
      rw [List.foldl_append]
      generalize l.foldl _ _ = s at hplaced hsize hcursor
      refine ⟨?_, by simpa using hsize, fun i hi => ?_⟩
      · rw [List.foldl_cons, List.foldl_nil, Array.toList_push, hcursor r.1.index hl.2]
        exact hplaced.snoc r
      · rw [List.foldl_cons, List.foldl_nil, getD_modify (by rwa [hsize]), hcursor i hi,
          leaving_concat, Nat.add_assoc]
  rw [places, ← Array.foldl_toList]
  exact (hfold rs.toList h).1

/-! ## Writing to places -/

section Place

variable {α : Type}

theorem size_foldl_set (zs : List (Nat × α)) (out : Array α) :
    (zs.foldl (fun out (slot, item) => out.setIfInBounds slot item) out).size = out.size := by
  induction zs generalizing out with
  | nil => rfl
  | cons z zs ih => rw [List.foldl_cons, ih, Array.size_setIfInBounds]

theorem getElem?_foldl_set_of_not_mem {zs : List (Nat × α)} {p : Nat} (h : p ∉ zs.map Prod.fst)
    (out : Array α) :
    (zs.foldl (fun out (slot, item) => out.setIfInBounds slot item) out)[p]? = out[p]? := by
  induction zs generalizing out with
  | nil => rfl
  | cons z zs ih =>
    simp only [List.map_cons, List.mem_cons, not_or] at h
    rw [List.foldl_cons, ih h.2, Array.getElem?_setIfInBounds_ne (Ne.symm h.1)]

/-- If no place is written twice, everything that is written stays. -/
theorem getElem?_foldl_set {zs : List (Nat × α)} (hnodup : (zs.map Prod.fst).Nodup) {p : Nat}
    {x : α} (h : (p, x) ∈ zs) {out : Array α} (hp : p < out.size) :
    (zs.foldl (fun out (slot, item) => out.setIfInBounds slot item) out)[p]? = some x := by
  induction zs generalizing out with
  | nil => cases h
  | cons z zs ih =>
    rw [List.map_cons, List.nodup_cons] at hnodup
    rcases List.mem_cons.1 h with rfl | h
    · rw [List.foldl_cons, getElem?_foldl_set_of_not_mem hnodup.1,
        Array.getElem?_setIfInBounds_self_of_lt hp]
    · exact ih hnodup.2 h (by rwa [Array.size_setIfInBounds])

theorem size_place (blank : α) (places : Array Nat) (items : Array α) :
    (place blank places items).size = items.size := by
  rw [place, ← Array.foldl_toList, size_foldl_set, Array.size_replicate]

theorem getElem?_place {places : Array Nat} {items : Array α} (hnodup : places.toList.Nodup)
    (hsize : places.size = items.size) (blank : α) {p : Nat} {x : α}
    (h : (p, x) ∈ places.toList.zip items.toList) (hp : p < items.size) :
    (place blank places items)[p]? = some x := by
  rw [place, ← Array.foldl_toList, Array.toList_zip]
  refine getElem?_foldl_set ?_ h (by rwa [Array.size_replicate])
  rwa [List.map_fst_zip (by simp [hsize])]

end Place

/-! ## The whole sort -/

section Sorting

variable {α ε : Type}

theorem flatMap_extract (out : Array α) {offset : Nat → Nat}
    (hmono : ∀ i, offset i ≤ offset (i + 1)) (n : Nat) :
    ((List.range n).flatMap fun i => (out.extract (offset i) (offset (i + 1))).toList) =
      (out.extract (offset 0) (offset n)).toList := by
  have hle : ∀ n, offset 0 ≤ offset n := fun n => by
    induction n with
    | zero => exact Nat.le_refl _
    | succ n ih => exact Nat.le_trans ih (hmono n)
  induction n with
  | zero => simp
  | succ n ih =>
    rw [List.range_succ, List.flatMap_append, ih, List.flatMap_singleton, ← Array.toList_append,
      Array.extract_append_extract, Nat.min_eq_left (hle n), Nat.max_eq_right (hmono n)]

/-- A stretch of an array, from what lies at its places. -/
theorem toList_extract_eq_map {out : Array α} {first : Nat} {zs : List (ε × Nat)} {item : ε → α}
    (hslots : zs.map Prod.snd = List.range' first zs.length)
    (hout : ∀ z ∈ zs, out[z.2]? = some (item z.1)) :
    (out.extract first (first + zs.length)).toList = zs.map fun z => item z.1 := by
  have hslot : ∀ j (hj : j < zs.length), zs[j].2 = first + j := fun j hj => by
    have : (zs.map Prod.snd)[j]? = some (first + j) := by simp [hslots, hj]
    simpa [hj] using this
  refine List.ext_getElem? fun j => ?_
  rw [Array.getElem?_toList, Array.getElem?_extract, List.getElem?_map]
  by_cases hj : j < zs.length
  · have hitem := hout zs[j] (List.getElem_mem hj)
    rw [hslot j hj] at hitem
    have hlt := (Array.getElem?_eq_some_iff.1 hitem).1
    rw [if_pos (by omega), hitem, List.getElem?_eq_getElem hj, Option.map_some]
  · rw [if_neg (by omega), List.getElem?_eq_none (by omega), Option.map_none]

variable {es : List ε} {rel : ε → NodeId × NodeId}

/-- The stretch of a node holds what has its source there, in the order in which it comes. -/
theorem extract_place {offset : Nat → Nat} {slots : Array Nat}
    (hplaced : Placed offset (es.map rel) slots.toList) (hnodup : slots.toList.Nodup)
    (hlt : ∀ p ∈ slots.toList, p < es.length) (item : ε → α) (blank : α) (i : Nat) :
    ((place blank slots (es.map item).toArray).extract (offset i)
      (offset i + leaving (es.map rel) i)).toList =
      (es.filter fun e => (rel e).1.index = i).map item := by
  have hlength : slots.toList.length = es.length := by rw [hplaced.length, List.length_map]
  set zs := (es.zip slots.toList).filter fun z => (rel z.1).1.index = i with hzs
  have hrow : zs.map Prod.snd = List.range' (offset i) (leaving (es.map rel) i) := by
    rw [← hplaced.row i, List.zip_map_left, List.filter_map, List.map_map]
    rfl
  have hleaving : zs.length = leaving (es.map rel) i := by
    rw [← List.length_map Prod.snd, hrow, List.length_range']
  have hitems : (es.filter fun e => (rel e).1.index = i).map item = zs.map fun z => item z.1 := by
    conv_lhs => rw [← List.map_fst_zip (Nat.le_of_eq hlength.symm), List.filter_map, List.map_map]
    rfl
  rw [hitems, ← hleaving]
  refine toList_extract_eq_map (by rw [hrow, hleaving]) fun z hz => ?_
  have hmem := (List.mem_filter.1 hz).1
  refine getElem?_place hnodup (by simpa using hlength) blank ?_
    (by simpa using hlt z.2 (List.of_mem_zip hmem).2)
  rw [List.zip_map_right, ← List.zip_swap, List.map_map]
  exact List.mem_map_of_mem hmem

theorem getD_offsets {n i : Nat} (hi : i ≤ n) (rs : List (NodeId × NodeId)) :
    (sumOffsets (countSources (n + 1) rs.toArray)).getD i 0 = before rs i := by
  simp [sumOffsets_countSources, Nat.lt_succ_of_le hi]

theorem placed_offsets {n : Nat} {rs : List (NodeId × NodeId)} (hsource : ∀ r ∈ rs, r.1.index < n) :
    Placed (fun i => (sumOffsets (countSources (n + 1) rs.toArray)).getD i 0) rs
      (places (sumOffsets (countSources (n + 1) rs.toArray)) rs.toArray).toList :=
  placed_places fun r hr => by
    rw [sumOffsets_countSources]
    simpa using Nat.lt_succ_of_lt (hsource r hr)

theorem places_lt {n : Nat} {rs : List (NodeId × NodeId)} (hsource : ∀ r ∈ rs, r.1.index < n) :
    ∀ p ∈ (places (sumOffsets (countSources (n + 1) rs.toArray)) rs.toArray).toList,
      p < rs.length :=
  (placed_offsets hsource).lt hsource fun i hi => by
    rw [getD_offsets (by omega), ← before_succ, ← before_eq_length hsource]
    exact before_mono rs hi

/-- Things with a source and a target are distributed among the nodes of their sources. -/
theorem place_places {n : Nat} (hsource : ∀ e ∈ es, (rel e).1.index < n) (item : ε → α)
    (blank : α) :
    place blank
        (places (sumOffsets (countSources (n + 1) (es.map rel).toArray)) (es.map rel).toArray)
        (es.map item).toArray =
      ((List.range n).flatMap fun i =>
        (es.filter fun e => (rel e).1.index = i).map item).toArray := by
  set rs := es.map rel with hrs
  have hsource' : ∀ r ∈ rs, r.1.index < n := by simpa [hrs] using hsource
  set offsets := sumOffsets (countSources (n + 1) rs.toArray) with hoffsets
  have hoffset : ∀ i ≤ n, offsets.getD i 0 = before rs i := fun i hi => getD_offsets hi rs
  set slots := places offsets rs.toArray
  have hplaced : Placed (fun i => offsets.getD i 0) rs slots.toList := placed_offsets hsource'
  have hnodup : slots.toList.Nodup := hplaced.nodup hsource' fun i j hij hj => by
    rw [hoffset i (by omega), hoffset j (by omega), ← before_succ]
    exact before_mono rs hij
  have hlt : ∀ p ∈ slots.toList, p < es.length := fun p hp => by
    simpa [hrs] using places_lt hsource' p hp
  set out := place blank slots (es.map item).toArray with hout
  have hall : (out.extract (before rs 0) (before rs n)).toList = out.toList := by
    have hsize : out.size = rs.length := by rw [hout, size_place, hrs]; simp
    rw [before_zero, before_eq_length hsource', ← hsize, Array.extract_size]
  rw [← Array.toList_inj, ← hall, ← flatMap_extract out fun i => before_mono rs (Nat.le_succ i)]
  refine List.flatMap_congr fun i hi => ?_
  have hi := List.mem_range.1 hi
  rw [before_succ, ← hoffset i (by omega)]
  exact extract_place hplaced hnodup hlt item blank i

end Sorting

/-! ## Freezing -/

/-- The rows of `n` nodes among things with a source, a target and a weight. -/
def rowsOf (n : Nat) (es : List (NodeId × NodeId × W)) : List (List (NodeId × W)) :=
  (List.range n).map fun i => (es.filter fun e => e.1.index = i).map Prod.snd

theorem length_rowsOf (n : Nat) (es : List (NodeId × NodeId × W)) : (rowsOf n es).length = n := by
  simp [rowsOf]

theorem lt_length_rowsOf {n i : Nat} (h : i < n) (es : List (NodeId × NodeId × W)) :
    i < (rowsOf n es).length := by
  rwa [length_rowsOf]

theorem getElem_rowsOf {n : Nat} (es : List (NodeId × NodeId × W)) {i : Nat}
    (h : i < (rowsOf n es).length) :
    (rowsOf n es)[i] = (es.filter fun e => e.1.index = i).map Prod.snd := by
  simp [rowsOf]

theorem length_flatten_rowsOf {n : Nat} {es : List (NodeId × NodeId × W)}
    (h : ∀ e ∈ es, e.1.index < n) : (rowsOf n es).flatten.length = es.length := by
  have hmap : (rowsOf n es).flatten =
      ((List.range n).flatMap fun i => es.filter fun e => e.1.index = i).map Prod.snd := by
    rw [rowsOf, ← List.flatMap_def, List.map_flatMap]
  rw [hmap, List.length_map]
  exact (perm_flatMap_filter (fun e : NodeId × NodeId × W => e.1.index) h).length_eq.symm

/-- The arrays of a graph with `n` nodes and `m` relationships can be reserved. -/
def Allocatable [Memory.Allocator] (n m : Nat) : Prop :=
  Memory.fits (n + 1) Memory.wordBytes ∧ Memory.fits m Memory.wordBytes

theorem before_eq_rowStart (es : List (NodeId × NodeId × W)) {n i : Nat} (h : i ≤ n) :
    before (es.map fun e => (e.1, e.2.1)) i = OffsetTable.rowStart (rowsOf n es) i := by
  induction i with
  | zero => simp [OffsetTable.rowStart]
  | succ i ih =>
    have hi : i < (rowsOf n es).length := by rw [length_rowsOf]; omega
    rw [before_succ, OffsetTable.rowStart_succ hi, ih (by omega), getElem_rowsOf, List.length_map,
      leaving, List.countP_map, ← List.countP_eq_length_filter]
    rfl

section Freezing

variable [Weight W] {b : Builder W}

theorem reserve_eq [Memory.Allocator] (what : String) (count bytes : Nat) :
    GraphError.reserve what count bytes =
      if Memory.fits count bytes then .ok () else .error (.resourceExhausted what count) := by
  unfold GraphError.reserve Memory.reserve
  cases Memory.fits count bytes <;> rfl

theorem allocatable_of_build [Memory.Allocator] {t : OffsetTable W} (h : b.build = .ok t) :
    Allocatable b.nodeCount.toNat b.relationships.size := by
  unfold build at h
  simp only [reserve_eq, bind, Except.bind, throw, throwThe, MonadExceptOf.throw, pure,
    Except.pure] at h
  unfold Allocatable
  split_ifs at h with _ hoffsets hrelationships
  exact ⟨hoffsets, hrelationships⟩

theorem resourceExhausted_of_build [Memory.Allocator] {e : GraphError} (h : b.build = .error e) :
    ∃ what n, e = .resourceExhausted what n := by
  unfold build at h
  simp only [reserve_eq, bind, Except.bind, throw, throwThe, MonadExceptOf.throw, pure,
    Except.pure] at h
  cases hws : b.weights <;> simp only [hws] at h <;> split_ifs at h <;> cases h <;>
    exact ⟨_, _, rfl⟩

theorem Sound.source_lt (h : b.Sound) : ∀ e ∈ b.stored, e.1.index < b.nodeCount.toNat := by
  intro e he
  refine UInt64.lt_iff_toNat_lt.1 (h.nodes (e.1, e.2.1) ?_).1
  rw [h.relationships_eq, List.toList_toArray]
  exact List.mem_map_of_mem he

theorem Sound.place_eq {α : Type} (h : b.Sound) (item : NodeId × W → α) (blank : α) :
    place blank
        (places (sumOffsets (countSources (b.nodeCount.toNat + 1) b.relationships)) b.relationships)
        (b.stored.map fun e => item e.2).toArray =
      ((rowsOf b.nodeCount.toNat b.stored).flatten.map item).toArray := by
  rw [h.relationships_eq, place_places h.source_lt, rowsOf, ← List.flatMap_def, List.map_flatMap]
  simp only [List.map_map, Function.comp_def]

/-- What the three passes make of a sound builder. -/
theorem Sound.frozen_eq (h : b.Sound) :
    (let offsets := sumOffsets (countSources (b.nodeCount.toNat + 1) b.relationships)
      let slotOf := places offsets b.relationships
      { offsets
        targets := place default slotOf (b.relationships.map Prod.snd)
        weights := b.weights.map (place Weight.unit slotOf) } : OffsetTable W) =
      OffsetTable.ofRows b.weights.isSome (rowsOf b.nodeCount.toNat b.stored) := by
  have htargets : b.relationships.map Prod.snd = (b.stored.map fun e => e.2.1).toArray := by
    rw [h.relationships_eq, List.map_toArray, List.map_map]
    rfl
  rw [OffsetTable.ofRows, OffsetTable.mk.injEq]
  refine ⟨?_, ?_, ?_⟩
  · rw [sumOffsets_countSources, h.relationships_eq, length_rowsOf]
    congr 1
    exact List.map_congr_left fun i hi =>
      before_eq_rowStart _ (Nat.le_of_lt_succ (List.mem_range.1 hi))
  · rw [htargets, h.place_eq Prod.fst]
  · rw [h.weights_eq]
    cases b.weights.isSome with
    | true =>
      simp only [↓reduceIte, Option.map_some, Option.isSome_some, h.place_eq Prod.snd]
    | false => rfl

/-- A sound builder is frozen into the table of its rows. -/
theorem build_eq [Memory.Allocator] (h : b.Sound)
    (hfits : Allocatable b.nodeCount.toNat b.relationships.size) :
    b.build = .ok (OffsetTable.ofRows b.weights.isSome (rowsOf b.nodeCount.toNat b.stored)) := by
  have hslots : ¬ wordLimit ≤ b.nodeCount.toNat + 1 := by
    have := Memory.le_addressSpace_of_fits hfits.1
    simp only [Memory.wordBytes, Memory.addressSpace, wordLimit] at *
    omega
  have hweights : ∀ ws, b.weights = some ws → Memory.fits ws.size Memory.wordBytes :=
    fun ws hws => (h.weights ws hws).1 ▸ hfits.2
  unfold build
  simp only [reserve_eq, bind, Except.bind, throw, throwThe, MonadExceptOf.throw, pure, Except.pure]
  rw [if_neg hslots, if_pos hfits.1, if_pos hfits.2, ← h.frozen_eq]
  cases hws : b.weights with
  | none => rfl
  | some ws =>
    dsimp only
    rw [if_pos (hweights ws hws)]

theorem isSome_weights_of_build [Memory.Allocator] {t : OffsetTable W} (h : b.Sound)
    (hbuild : b.build = .ok t) :
    t.weights.isSome = b.weights.isSome := by
  rw [build_eq h (allocatable_of_build hbuild)] at hbuild
  rw [← Except.ok.inj hbuild, OffsetTable.isSome_weights_ofRows]

/-! Adding a sequence of relationships to a builder that holds nothing and freezing it. -/

/-- A sequence of relationships that a graph of `n` nodes takes: their end points are nodes, their
    weights are finite, and either all or none have weights. -/
structure Acceptable (n : UInt64) (rels : List (NodeId × NodeId × Option W)) : Prop where
  nodes : ∀ r ∈ rels, r.1.val < n ∧ r.2.1.val < n
  finite : ∀ r ∈ rels, ∀ w, r.2.2 = some w → Weight.isFinite w
  uniform : (∀ r ∈ rels, r.2.2.isSome) ∨ ∀ r ∈ rels, r.2.2 = none

/-- A relationship with the weight that is read of it. -/
def weighed (r : NodeId × NodeId × Option W) : NodeId × NodeId × W :=
  (r.1, r.2.1, r.2.2.getD Weight.unit)

/-- What a builder stores of a sequence of relationships. -/
def entered (b : Builder W) (rels : List (NodeId × NodeId × Option W)) :
    List (NodeId × NodeId × W) :=
  rels.flatMap fun r => b.directions r.1 r.2.1 (r.2.2.getD Weight.unit)

theorem entered_new (n : UInt64) (rels : List (NodeId × NodeId × Option W)) :
    (new n).entered rels = rels.map weighed := by
  rw [List.map_eq_flatMap]
  rfl

theorem addAll_isOk_iff_acceptable (h : b.Sound) (hempty : b.size = 0)
    {rels : List (NodeId × NodeId × Option W)} :
    (∃ b', b.addAll rels = .ok b') ↔ Acceptable b.nodeCount rels := by
  rw [addAll_isOk_iff h]
  constructor
  · rintro ⟨hall, weighted, -, hsame⟩
    refine ⟨fun r hr => ⟨(hall r hr).1, (hall r hr).2.1⟩, fun r hr => (hall r hr).2.2, ?_⟩
    cases weighted with
    | true => exact .inl hsame
    | false => exact .inr fun r hr => by simpa using hsame r hr
  · rintro ⟨hnodes, hfinite, huniform⟩
    refine ⟨fun r hr => ⟨(hnodes r hr).1, (hnodes r hr).2, hfinite r hr⟩, ?_⟩
    rcases huniform with hsome | hnone
    · exact ⟨true, .inl hempty, hsome⟩
    · exact ⟨false, .inl hempty, fun r hr => by simp [hnone r hr]⟩

theorem Sound.stored_of_empty (h : b.Sound) (hempty : b.size = 0) : b.stored = [] := by
  rw [stored, h.weights_of_empty hempty, Array.eq_empty_of_size_eq_zero hempty]
  rfl

theorem stored_of_addAll {b' : Builder W} (h : b.Sound) (hempty : b.size = 0)
    {rels : List (NodeId × NodeId × Option W)} (hall : b.addAll rels = .ok b') :
    b'.stored = b.entered rels := by
  rw [(added_of_addAll h hall).stored, h.stored_of_empty hempty, List.nil_append, entered]

theorem size_of_addAll {b' : Builder W} (h : b.Sound) (hempty : b.size = 0)
    {rels : List (NodeId × NodeId × Option W)} (hall : b.addAll rels = .ok b') :
    b'.size = (b.entered rels).length := by
  rw [size, (added_of_addAll h hall).sound.relationships_eq, stored_of_addAll h hempty hall]
  simp

/-- What a builder that held nothing is frozen into after a sequence of additions. -/
theorem build_of_addAll [Memory.Allocator] {b' : Builder W} (h : b.Sound) (hempty : b.size = 0)
    {rels : List (NodeId × NodeId × Option W)} (hall : b.addAll rels = .ok b')
    {t : OffsetTable W} :
    b'.build = .ok t ↔ Allocatable b.nodeCount.toNat (b.entered rels).length ∧
      t = OffsetTable.ofRows (rels.any fun r => r.2.2.isSome)
        (rowsOf b.nodeCount.toNat (b.entered rels)) := by
  have hadded := added_of_addAll h hall
  have hweights : b'.weights.isSome = rels.any fun r => r.2.2.isSome := by
    rw [hadded.weights, h.weights_of_empty hempty]
    rfl
  rw [← size_of_addAll h hempty hall, size, ← stored_of_addAll h hempty hall, ← hweights,
    ← hadded.nodeCount]
  constructor
  · intro hbuild
    have hfits := allocatable_of_build hbuild
    rw [build_eq hadded.sound hfits] at hbuild
    exact ⟨hfits, (Except.ok.inj hbuild).symm⟩
  · rintro ⟨hfits, rfl⟩
    exact build_eq hadded.sound hfits

/-- A sequence of relationships is added to a builder that holds nothing and frozen exactly if it is
    acceptable and the arrays fit, and what is frozen is the table of the rows of the sequence. -/
theorem build_addAll_iff [Memory.Allocator] (h : b.Sound) (hempty : b.size = 0)
    {rels : List (NodeId × NodeId × Option W)} {t : OffsetTable W} :
    (∃ b', b.addAll rels = .ok b' ∧ b'.build = .ok t) ↔
      Acceptable b.nodeCount rels ∧ Allocatable b.nodeCount.toNat (b.entered rels).length ∧
        t = OffsetTable.ofRows (rels.any fun r => r.2.2.isSome)
          (rowsOf b.nodeCount.toNat (b.entered rels)) := by
  constructor
  · rintro ⟨b', hall, hbuild⟩
    exact ⟨(addAll_isOk_iff_acceptable h hempty).1 ⟨b', hall⟩,
      (build_of_addAll h hempty hall).1 hbuild⟩
  · rintro ⟨hacceptable, htable⟩
    obtain ⟨b', hall⟩ := (addAll_isOk_iff_acceptable h hempty).2 hacceptable
    exact ⟨b', hall, (build_of_addAll h hempty hall).2 htable⟩

theorem build_addAll_new_iff [Memory.Allocator] {n : UInt64}
    {rels : List (NodeId × NodeId × Option W)} {t : OffsetTable W} :
    (∃ b, (new n).addAll rels = .ok b ∧ b.build = .ok t) ↔
      Acceptable n rels ∧ Allocatable n.toNat rels.length ∧
        t = OffsetTable.ofRows (rels.any fun r => r.2.2.isSome)
          (rowsOf n.toNat (rels.map weighed)) := by
  rw [build_addAll_iff (.new n) rfl, entered_new, List.length_map]
  rfl

end Freezing

end Builder

end Superstep
