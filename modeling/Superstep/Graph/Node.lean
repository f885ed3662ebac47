import Superstep.Decimal.Natural

/-!
# Node ids

Nodes are numbered densely: a graph with `n` nodes uses exactly the ids `0, …, n - 1`. An id is a
64-bit number of a type of its own, so that it is not mistaken for a count, a degree or an offset.

Main statements: `ofIndex_index` and `index_ofIndex`, ids and slot numbers below `2 ^ 64` are the
same thing; `index_lt`.
-/

namespace Superstep

/-- The number of a node. -/
structure NodeId where
  val : UInt64
deriving DecidableEq, Inhabited

namespace NodeId

instance : LT NodeId := ⟨fun a b => a.val < b.val⟩
instance : LE NodeId := ⟨fun a b => a.val ≤ b.val⟩
instance (a b : NodeId) : Decidable (a < b) := inferInstanceAs (Decidable (a.val < b.val))
instance (a b : NodeId) : Decidable (a ≤ b) := inferInstanceAs (Decidable (a.val ≤ b.val))

/-- The slot that belongs to a node in storage that has one slot per node. -/
def index (n : NodeId) : Nat := n.val.toNat

/-- The node of a slot. -/
def ofIndex (i : Nat) : NodeId := ⟨i.toUInt64⟩

/-- What is left of an id that has passed through a 32-bit index: its low 32 bits. -/
def narrow (n : NodeId) : NodeId := ⟨n.val &&& 0xffffffff⟩

/-- The decimal digits of an id. -/
def digits (n : NodeId) : List Char := Decimal.digits n.index

/-- The decimal text of an id. -/
def text (n : NodeId) : String := Decimal.text n.index

theorem index_lt (n : NodeId) : n.index < wordLimit := toNat_lt_wordLimit n.val

theorem index_ofIndex {i : Nat} (h : i < wordLimit) : (ofIndex i).index = i := toNat_toUInt64 h

@[simp] theorem ofIndex_index (n : NodeId) : ofIndex n.index = n := by
  cases n
  simp [index, ofIndex, Nat.toUInt64]

theorem index_inj {a b : NodeId} : a.index = b.index ↔ a = b := by
  refine ⟨fun h => ?_, fun h => h ▸ rfl⟩
  rw [← ofIndex_index a, ← ofIndex_index b, h]

end NodeId

end Superstep
