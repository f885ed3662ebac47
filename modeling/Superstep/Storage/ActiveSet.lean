import Superstep.Storage.Bitset

/-!
# Active nodes

`ActiveSet` keeps two sets of nodes, one for the even and one for the odd supersteps. During
superstep `t` the set of the parity of `t` lists the nodes that are executed, and the other one
collects the nodes of superstep `t + 1`. Once the executed nodes have been removed from the first
set it is ready to collect the nodes of superstep `t + 2`.

Main statements: `next_eq_current_succ`, the nodes collected in a superstep are those executed in
the following one; `current_setNext` and `next_setCurrent`, the two sets do not disturb each other;
`current_join` and `next_join`, what is put together can be taken apart.
-/

namespace Superstep

/-- The active nodes of even and of odd supersteps. -/
structure ActiveSet where
  even : Bitset
  odd : Bitset

namespace ActiveSet

/-- Reserves two empty sets. -/
def new [Memory.Allocator] (nodeCount : Nat) : Except AllocationError ActiveSet := do
  let even ← Bitset.new nodeCount
  let odd ← Bitset.new nodeCount
  return ⟨even, odd⟩

/-- The nodes executed in superstep `t`. -/
def current (a : ActiveSet) (t : Nat) : Bitset := if t % 2 = 0 then a.even else a.odd

/-- The nodes to be executed in superstep `t + 1`. -/
def next (a : ActiveSet) (t : Nat) : Bitset := if t % 2 = 0 then a.odd else a.even

/-- The two sets put together: the nodes executed in superstep `t`, and those of the next one. -/
def join (t : Nat) (current next : Bitset) : ActiveSet :=
  if t % 2 = 0 then ⟨current, next⟩ else ⟨next, current⟩

/-- Replaces the set of the nodes executed in superstep `t`. -/
def setCurrent (a : ActiveSet) (t : Nat) (s : Bitset) : ActiveSet :=
  if t % 2 = 0 then { a with even := s } else { a with odd := s }

/-- Replaces the set of the nodes to be executed in superstep `t + 1`. -/
def setNext (a : ActiveSet) (t : Nat) (s : Bitset) : ActiveSet :=
  if t % 2 = 0 then { a with odd := s } else { a with even := s }

theorem next_eq_current_succ (a : ActiveSet) (t : Nat) : a.next t = a.current (t + 1) := by
  unfold next current
  rcases Nat.mod_two_eq_zero_or_one t with h | h <;> simp [h, Nat.add_mod]

@[simp] theorem current_join (t : Nat) (c n : Bitset) : (join t c n).current t = c := by
  unfold join current
  split <;> rfl

@[simp] theorem next_join (t : Nat) (c n : Bitset) : (join t c n).next t = n := by
  unfold join next
  split <;> rfl

@[simp] theorem current_setCurrent (a : ActiveSet) (t : Nat) (s : Bitset) :
    (a.setCurrent t s).current t = s := by
  unfold setCurrent current
  split <;> rfl

@[simp] theorem next_setNext (a : ActiveSet) (t : Nat) (s : Bitset) :
    (a.setNext t s).next t = s := by
  unfold setNext next
  split <;> rfl

@[simp] theorem current_setNext (a : ActiveSet) (t : Nat) (s : Bitset) :
    (a.setNext t s).current t = a.current t := by
  unfold setNext current
  split <;> rfl

@[simp] theorem next_setCurrent (a : ActiveSet) (t : Nat) (s : Bitset) :
    (a.setCurrent t s).next t = a.next t := by
  unfold setCurrent next
  split <;> rfl

end ActiveSet

end Superstep
