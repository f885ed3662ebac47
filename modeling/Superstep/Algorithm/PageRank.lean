import Superstep.Run.Computation

/-!
# Page rank

Every node starts with the same share of a total rank of one. In every superstep it divides its rank
evenly among the relationships that leave it, and in every superstep but the first its new rank is a
base share plus the damped sum of what it has received. A node without outgoing relationships keeps
nothing for the others: its rank is not passed on. No node ever halts, so that the run takes as many
supersteps as it may. The combiner to run it with is `sum`.

The arithmetic of ranks is a parameter: the program computes with double-precision numbers.
-/

namespace Superstep

/-- The arithmetic of ranks. -/
class RankArithmetic (R : Type) where
  ofNat : Nat → R
  add : R → R → R
  sub : R → R → R
  mul : R → R → R
  div : R → R → R

instance : RankArithmetic Float where
  ofNat := Nat.toFloat
  add a b := a + b
  sub a b := a - b
  mul a b := a * b
  div a b := a / b

namespace PageRank

open RankArithmetic

variable {W R : Type} [RankArithmetic R]

/-- The sum of ranks, from the left. -/
def total (ranks : List R) : R := ranks.foldl add (ofNat 0)

/-- The new rank of a node that has received `ranks`. -/
def update (damping : R) (nodeCount : Nat) (ranks : List R) : R :=
  add (div (sub (ofNat 1) damping) (ofNat nodeCount)) (mul damping (total ranks))

/-- The step of a node. -/
def step (damping : R) (view : NodeView W R R) : Outcome R R :=
  let rank :=
    if view.isInitial then view.value
    else update damping view.graph.nodeCount.toNat view.messages
  let sends := if view.degree > 0 then [.toNeighbors (div rank (ofNat view.degree))] else []
  ⟨rank, sends, false, none⟩

/-- The computation of page ranks. -/
def computation (damping : R) : Computation W R R where
  init g _ := div (ofNat 1) (ofNat g.nodeCount.toNat)
  step := step damping
  combiner := none

/-- The usual damping. -/
def defaultDamping : Float := 0.85

end PageRank

end Superstep
