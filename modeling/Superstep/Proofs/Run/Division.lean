import Superstep.Proofs.Run.Partition
import Superstep.Word

/-!
# Dividing any number of nodes among any number of workers

`Partition.divide` counts with natural numbers. Here the quotient, the rest and the running start of
the next partition are words (`divideWords?`), and a sum that is no word, or a division by zero,
ends the division.

How many nodes a partition has follows from its number alone: those before the rest of the quotient
have one node more than the others (`of_getElem?_stretches`).

Result: `nodes_divided`. Nothing overflows, whatever the two numbers are, and the partitions tile
the nodes evenly.
-/

namespace Superstep.Partition

/-! ## Division with words -/

/-- Where the partition with number `index` stops: after `base` nodes, and one more below
    `extra`. -/
def stopOf? (base extra index start : UInt64) : Option UInt64 := do
  let length ← Word.add? base (if index < extra then 1 else 0)
  Word.add? start length

/-- `count` consecutive stretches from worker number `index` and node `start` on, unless a number is
    no word. -/
def stretchWords? (base extra : UInt64) : Nat → UInt64 → UInt64 → Option (List Partition)
  | 0, _, _ => some []
  | count + 1, index, start => do
    let stop ← stopOf? base extra index start
    let next ← Word.add? index 1
    let rest ← stretchWords? base extra count next stop
    return ⟨index.toNat, start.toNat, stop.toNat⟩ :: rest

/-- Divides nodes among at most `concurrency` workers, unless a number is no word. -/
def divideWords? (nodeCount concurrency : UInt64) : Option (List Partition) :=
  let parts := min (max concurrency 1) nodeCount
  if parts = 0 then some []
  else do
    let base ← Word.div? nodeCount parts
    stretchWords? base (nodeCount % parts) parts.toNat 0 0

section Words

variable {base extra index start : UInt64} {count stop : Nat}

theorem exists_stopOf?
    (h : start.toNat + (base.toNat + if index.toNat < extra.toNat then 1 else 0) < wordLimit) :
    ∃ stop, stopOf? base extra index start = some stop ∧
      stop.toNat = start.toNat + (base.toNat + if index.toNat < extra.toNat then 1 else 0) := by
  have hone : (if index < extra then (1 : UInt64) else 0).toNat =
      if index.toNat < extra.toNat then 1 else 0 := by
    simp only [UInt64.lt_iff_toNat_lt]
    split <;> rfl
  rw [← hone] at h ⊢
  have hlength : base.toNat + (if index < extra then (1 : UInt64) else 0).toNat < wordLimit := by
    omega
  rw [← Word.toNat_add_of_lt hlength] at h ⊢
  refine ⟨_, ?_, Word.toNat_add_of_lt h⟩
  rw [stopOf?, Word.add?_of_lt hlength, Option.bind_eq_bind, Option.bind_some, Word.add?_of_lt h]

/-- Stretches that end at a word are computed within words. -/
theorem stretchWords?_eq (hindex : index.toNat + count < wordLimit)
    (htiles : Tiles start.toNat stop
      (stretches base.toNat extra.toNat count index.toNat start.toNat))
    (hstop : stop < wordLimit) :
    stretchWords? base extra count index start =
      some (stretches base.toNat extra.toNat count index.toNat start.toNat) := by
  induction count generalizing index start with
  | zero => rfl
  | succ count ih =>
    rw [stretches] at htiles ⊢
    obtain ⟨-, -, htail⟩ := htiles
    obtain ⟨next, hnext, htoNat⟩ := exists_stopOf? (htail.le.trans_lt hstop)
    have hone : index.toNat + (1 : UInt64).toNat < wordLimit := by
      rw [UInt64.toNat_one]
      omega
    have hindex' : (index + 1).toNat = index.toNat + 1 := Word.toNat_add_of_lt hone
    dsimp only at htail ⊢
    rw [← htoNat, ← hindex'] at htail ⊢
    have hrest := ih (by omega) htail
    simp only [stretchWords?, hnext, Word.add?_of_lt hone, hrest, Option.bind_eq_bind,
      Option.bind_some]
    rfl

end Words

theorem divideWords?_eq (nodeCount concurrency : UInt64) :
    divideWords? nodeCount concurrency = some (divide nodeCount.toNat concurrency.toNat) := by
  set parts := min (max concurrency 1) nodeCount with hparts
  have hcount : count nodeCount.toNat concurrency.toNat = parts.toNat := by
    rw [count, hparts, UInt64.toNat_min, UInt64.toNat_max, UInt64.toNat_one]
  have htiles := tiles_divide nodeCount.toNat concurrency.toNat
  rw [divideWords?, ← hparts]
  unfold divide at htiles ⊢
  dsimp only at htiles ⊢
  rw [hcount] at htiles ⊢
  by_cases hzero : parts = 0
  · rw [hzero]
    rfl
  · have hne : parts.toNat ≠ 0 := fun h => hzero (UInt64.toNat_inj.1 h)
    rw [if_neg hne, ← UInt64.toNat_div, ← UInt64.toNat_mod] at htiles ⊢
    rw [if_neg hzero, Word.div?_of_ne hzero, Option.bind_eq_bind, Option.bind_some]
    exact stretchWords?_eq (by simpa using toNat_lt_wordLimit parts) htiles
      (toNat_lt_wordLimit nodeCount)

/-! ## Numbers and sizes -/

/-- The partition at a place has the number of the place, and the size that goes with it. -/
theorem of_getElem?_stretches {base extra count index start k : Nat} {p : Partition}
    (h : (stretches base extra count index start)[k]? = some p) :
    p.index = index + k ∧ p.size = base + if index + k < extra then 1 else 0 := by
  induction count generalizing index start k with
  | zero => cases h
  | succ count ih =>
    rw [stretches] at h
    cases k with
    | zero =>
      obtain rfl := Option.some.inj h
      exact ⟨rfl, Nat.add_sub_cancel_left ..⟩
    | succ k =>
      rw [List.getElem?_cons_succ] at h
      rw [show index + (k + 1) = index + 1 + k by omega]
      exact ih h

/-- The number and the size of a partition of a run. -/
theorem of_getElem?_divide {nodeCount concurrency k : Nat} {p : Partition}
    (h : (divide nodeCount concurrency)[k]? = some p) :
    let parts := count nodeCount concurrency
    0 < parts ∧ p.index = k ∧
      p.size = nodeCount / parts + if k < nodeCount % parts then 1 else 0 := by
  intro parts
  unfold divide at h
  dsimp only at h
  split at h
  · cases h
  · next hne =>
    have hspec := of_getElem?_stretches h
    rw [Nat.zero_add] at hspec
    exact ⟨Nat.pos_of_ne_zero hne, hspec⟩

theorem size_pos {nodeCount concurrency k : Nat} {p : Partition}
    (h : (divide nodeCount concurrency)[k]? = some p) : 0 < p.size := by
  obtain ⟨hpos, -, hsize⟩ := of_getElem?_divide h
  have hbase : 0 < nodeCount / count nodeCount concurrency :=
    Nat.div_pos (Nat.min_le_right _ _) hpos
  omega

/-! ## Every division -/

/-- Any number of nodes, divided among any number of workers, none included. No sum overflows, and
    a list of partitions is refused only if it does not fit in memory. There is one partition for
    each worker, but no more than there are nodes. They are numbered in order, none is empty, and
    they follow one another from the first node to the last. Their sizes differ by at most one, and
    the larger ones come first. So every node is in exactly one partition, and an array of all nodes
    can be split into them. -/
theorem nodes_divided [Memory.Allocator] (nodeCount concurrency : UInt64) :
    let n := nodeCount.toNat
    let ps := divide n concurrency.toNat
    divideWords? nodeCount concurrency = some ps ∧
    (Memory.fits ps.length Memory.tripleBytes → divide? n concurrency.toNat = some ps) ∧
    ps.length = min (max concurrency.toNat 1) n ∧
    (∀ (k : Nat) (p : Partition), ps[k]? = some p → p.index = k ∧ p.isEmpty = false) ∧
    Tiles 0 n ps ∧
    (∀ (j k : Nat) (p q : Partition), ps[j]? = some p → ps[k]? = some q → j ≤ k →
      q.size ≤ p.size ∧ p.size ≤ q.size + 1) ∧
    (∀ i, (∃! p, p ∈ ps ∧ i ∈ p.nodes) ↔ i < n) ∧
    PagedView.Ascending (ps.map fun p => (p.start, p.stop)) ∧ ∀ p ∈ ps, p.stop ≤ n := by
  intro n ps
  have htiles : Tiles 0 n ps := tiles_divide n concurrency.toNat
  have hlength : ps.length = min (max concurrency.toNat 1) n := length_divide n concurrency.toNat
  refine ⟨divideWords?_eq nodeCount concurrency, fun hfits => ?_, hlength, fun k p hp => ?_, htiles,
    fun j k p q hp hq hjk => ?_, fun i => ⟨?_, fun hi => ?_⟩, htiles.ascending,
    fun p hp => (htiles.le_of_mem hp).2.2⟩
  · rw [hlength] at hfits
    exact divide?_eq_some_iff.2 ⟨hfits, rfl⟩
  · have hsize := size_pos hp
    refine ⟨(of_getElem?_divide hp).2.1, ?_⟩
    rw [size] at hsize
    rw [isEmpty, decide_eq_false_iff_not]
    omega
  · rw [(of_getElem?_divide hp).2.2, (of_getElem?_divide hq).2.2]
    split <;> split <;> omega
  · rintro ⟨p, ⟨hp, hi⟩, -⟩
    exact (mem_nodes.1 hi).2.trans_le (htiles.le_of_mem hp).2.2
  · have hall : i ∈ ps.flatMap nodes := by
      rw [htiles.flatMap_nodes, List.mem_range'_1]
      omega
    obtain ⟨p, hp, hip⟩ := List.mem_flatMap.1 hall
    refine ⟨p, ⟨hp, hip⟩, ?_⟩
    rintro q ⟨hq, hiq⟩
    obtain ⟨j, hj⟩ := List.getElem?_of_mem hp
    obtain ⟨k, hk⟩ := List.getElem?_of_mem hq
    obtain rfl := htiles.eq_of_mem hj hk hip hiq
    exact Option.some.inj (hk.symm.trans hj)

/-- As many nodes as there are words, less one: the second partition stops at the largest word. -/
example : divideWords? 18446744073709551615 2 =
    some [⟨0, 0, 9223372036854775808⟩, ⟨1, 9223372036854775808, 18446744073709551615⟩] := by
  decide

end Superstep.Partition
