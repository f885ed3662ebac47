import Superstep.Storage.Memory

/-!
# Partitions

The nodes of a run are divided among its workers: each worker owns a stretch of consecutive nodes.
The sizes of the stretches differ by at most one, and the first stretches take what is left over.

`divide` makes the list of the partitions, however long; `divide?` refuses a list that does not fit
in memory. A run has so few workers that it need not ask.

Main statements: `length_divide`, there are as many partitions as workers, but no more than nodes,
and at least one if there is a node; `divide?_eq_some_iff`, the partitions that are not refused are
those of `divide`.
-/

namespace Superstep

/-- The nodes `start, …, stop - 1`, owned by worker number `index`. -/
structure Partition where
  index : Nat
  start : Nat
  stop : Nat
deriving DecidableEq

namespace Partition

/-- The number of nodes. -/
def size (p : Partition) : Nat := p.stop - p.start

/-- Whether there is no node. -/
def isEmpty (p : Partition) : Bool := p.start ≥ p.stop

/-- `count` consecutive stretches from worker number `index` and node `start` on, of `base` nodes
    each and of one more below worker number `extra`. -/
def stretches (base extra : Nat) : Nat → Nat → Nat → List Partition
  | 0, _, _ => []
  | count + 1, index, start =>
    let stop := start + (base + if index < extra then 1 else 0)
    ⟨index, start, stop⟩ :: stretches base extra count (index + 1) stop

/-- The number of partitions: one for each worker, but no more than there are nodes. -/
def count (nodeCount concurrency : Nat) : Nat := min (max concurrency 1) nodeCount

/-- Divides nodes among at most `concurrency` workers. -/
def divide (nodeCount concurrency : Nat) : List Partition :=
  let parts := count nodeCount concurrency
  if parts = 0 then []
  else stretches (nodeCount / parts) (nodeCount % parts) parts 0 0

/-- Divides nodes among at most `concurrency` workers, if the partitions fit in memory. -/
def divide? [Memory.Allocator] (nodeCount concurrency : Nat) : Option (List Partition) :=
  if Memory.fits (count nodeCount concurrency) Memory.tripleBytes then
    some (divide nodeCount concurrency)
  else none

@[simp] theorem length_stretches (base extra count index start : Nat) :
    (stretches base extra count index start).length = count := by
  induction count generalizing index start with
  | zero => rfl
  | succ count ih => simp [stretches, ih]

/-- There are as many partitions as workers, but no more than nodes. -/
theorem length_divide (nodeCount concurrency : Nat) :
    (divide nodeCount concurrency).length = min (max concurrency 1) nodeCount := by
  unfold divide
  dsimp only
  split
  · next h => simpa [count] using h.symm
  · simp [count]

/-- The partitions that are not refused are those of `divide`. -/
theorem divide?_eq_some_iff [Memory.Allocator] {nodeCount concurrency : Nat} {ps : List Partition} :
    divide? nodeCount concurrency = some ps ↔
      Memory.fits (count nodeCount concurrency) Memory.tripleBytes ∧
        divide nodeCount concurrency = ps := by
  unfold divide?
  split
  · next h => simp [h]
  · next h => simp [h]

end Partition

end Superstep
