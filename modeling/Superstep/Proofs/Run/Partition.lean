import Mathlib.Tactic
import Superstep.Proofs.Storage.View
import Superstep.Run.Partition

/-!
# Partitions tile the nodes

`Tiles a b ps` says that the partitions `ps` follow one another from `a` to `b` without a gap.

Results:
* `tiles_divide`: the partitions of a run tile its nodes.
* `Tiles.flatMap_nodes`: the nodes of the partitions, one after the other, are all nodes in order.
* `Tiles.eq_of_mem`: no node is in two partitions.
-/

namespace Superstep.Partition

/-- Partitions that follow one another from `a` to `b`. -/
def Tiles : Nat → Nat → List Partition → Prop
  | a, b, [] => a = b
  | a, b, p :: ps => p.start = a ∧ p.start ≤ p.stop ∧ Tiles p.stop b ps

/-- The nodes of a partition. -/
def nodes (p : Partition) : List Nat := List.range' p.start (p.stop - p.start)

theorem mem_nodes {p : Partition} {i : Nat} : i ∈ p.nodes ↔ p.start ≤ i ∧ i < p.stop := by
  rw [nodes, List.mem_range'_1]
  omega

/-! ## The partitions of a run -/

theorem tiles_stretches (base extra count index start : Nat) :
    Tiles start (start + (count * base + (min extra (index + count) - min extra index)))
      (stretches base extra count index start) := by
  induction count generalizing index start with
  | zero =>
    rw [stretches]
    simp [Tiles]
  | succ count ih =>
    rw [stretches]
    refine ⟨rfl, Nat.le_add_right _ _, ?_⟩
    have h := ih (index + 1) (start + (base + if index < extra then 1 else 0))
    convert h using 1
    rw [Nat.add_mul, one_mul, show index + 1 + count = index + (count + 1) by omega]
    split_ifs <;> omega

theorem tiles_divide (nodeCount concurrency : Nat) :
    Tiles 0 nodeCount (divide nodeCount concurrency) := by
  unfold divide
  simp only
  split_ifs with h
  · unfold count at h
    show 0 = nodeCount
    omega
  · have htiles := tiles_stretches (nodeCount / count nodeCount concurrency)
      (nodeCount % count nodeCount concurrency) (count nodeCount concurrency) 0 0
    have hmod := Nat.mod_lt nodeCount (Nat.pos_of_ne_zero h)
    have hdiv := Nat.div_add_mod nodeCount (count nodeCount concurrency)
    convert htiles using 1
    rw [Nat.zero_add, Nat.zero_add, Nat.min_zero, Nat.sub_zero, Nat.min_eq_left hmod.le]
    exact hdiv.symm

/-! ## Nodes of partitions -/

namespace Tiles

theorem le {a b : Nat} {ps : List Partition} (h : Tiles a b ps) : a ≤ b := by
  induction ps generalizing a with
  | nil => exact Nat.le_of_eq h
  | cons p ps ih =>
    obtain ⟨rfl, hle, htail⟩ := h
    exact hle.trans (ih htail)

theorem le_of_mem {a b : Nat} {ps : List Partition} (h : Tiles a b ps) {p : Partition}
    (hp : p ∈ ps) : a ≤ p.start ∧ p.start ≤ p.stop ∧ p.stop ≤ b := by
  induction ps generalizing a with
  | nil => cases hp
  | cons q ps ih =>
    obtain ⟨rfl, hle, htail⟩ := h
    rcases List.mem_cons.1 hp with rfl | hp
    · exact ⟨le_rfl, hle, htail.le⟩
    · obtain ⟨h1, h2, h3⟩ := ih htail hp
      exact ⟨hle.trans h1, h2, h3⟩

/-- The nodes of the partitions, one after the other, are all nodes in order. -/
theorem flatMap_nodes {a b : Nat} {ps : List Partition} (h : Tiles a b ps) :
    ps.flatMap nodes = List.range' a (b - a) := by
  induction ps generalizing a with
  | nil =>
    obtain rfl : a = b := h
    simp
  | cons p ps ih =>
    obtain ⟨rfl, hle, htail⟩ := h
    have hb := htail.le
    rw [List.flatMap_cons, ih htail, nodes, show b - p.start = (p.stop - p.start) + (b - p.stop) by
      omega, ← List.range'_append_1, Nat.add_sub_cancel' hle]

/-- An earlier partition ends before a later one starts. -/
theorem stop_le_start {a b : Nat} {ps : List Partition} (h : Tiles a b ps) {j k : Nat}
    {p q : Partition} (hp : ps[j]? = some p) (hq : ps[k]? = some q) (hjk : j < k) :
    p.stop ≤ q.start := by
  induction ps generalizing a j k with
  | nil => cases hp
  | cons r ps ih =>
    obtain ⟨rfl, hle, htail⟩ := h
    obtain ⟨k, rfl⟩ := Nat.exists_eq_add_one_of_ne_zero (Nat.ne_zero_of_lt hjk)
    rw [List.getElem?_cons_succ] at hq
    cases j with
    | zero =>
      cases hp
      exact (htail.le_of_mem (List.mem_of_getElem? hq)).1
    | succ j =>
      rw [List.getElem?_cons_succ] at hp
      exact ih htail hp hq (by omega)

theorem eq_of_mem {a b : Nat} {ps : List Partition} (h : Tiles a b ps) {j k i : Nat}
    {p q : Partition} (hp : ps[j]? = some p) (hq : ps[k]? = some q) (hip : i ∈ p.nodes)
    (hiq : i ∈ q.nodes) : j = k := by
  rw [mem_nodes] at hip hiq
  rcases Nat.lt_trichotomy j k with hlt | heq | hlt
  · have := h.stop_le_start hp hq hlt
    omega
  · exact heq
  · have := h.stop_le_start hq hp hlt
    omega

theorem ascending {a b : Nat} {ps : List Partition} (h : Tiles a b ps) :
    PagedView.Ascending (ps.map fun p => (p.start, p.stop)) := by
  induction ps generalizing a with
  | nil => trivial
  | cons p ps ih =>
    obtain ⟨rfl, hle, htail⟩ := h
    refine ⟨hle, ?_, ih htail⟩
    intro r hr
    obtain ⟨q, hq, rfl⟩ := List.mem_map.1 hr
    exact (htail.le_of_mem hq).1

end Tiles

end Superstep.Partition
