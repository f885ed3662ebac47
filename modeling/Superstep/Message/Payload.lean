import Superstep.Graph.Node
import Superstep.Message.Combiner

/-!
# Types of messages

The numbers that can be sent with every combiner: integers of any width, unsigned (`Unsigned`) and
signed (`Signed`), whose sums wrap, and floating-point numbers. A node id can be sent with every
combiner but the sum. A text is an example of a type that supports only the default combiners.
-/

namespace Superstep

/-! ## Integers -/

/-- An unsigned integer of `n` bits. -/
structure Unsigned (n : Nat) where
  bits : BitVec n
deriving DecidableEq

namespace Unsigned

variable {n : Nat}

def toNat (a : Unsigned n) : Nat := a.bits.toNat

/-- The integer with the value of `v`, reduced to `n` bits. -/
def ofNat (v : Nat) : Unsigned n := ⟨BitVec.ofNat n v⟩

instance : Message (Unsigned n) where
  supports _ := true
  reduce
    | .sum, a, b => ⟨a.bits + b.bits⟩
    | .min, a, b => if b.toNat < a.toNat then b else a
    | .max, a, b => if a.toNat < b.toNat then b else a
    | .first, a, _ => a
    | .none, a, _ => a

end Unsigned

/-- A signed integer of `n` bits in two's complement. -/
structure Signed (n : Nat) where
  bits : BitVec n
deriving DecidableEq

namespace Signed

variable {n : Nat}

def toInt (a : Signed n) : Int := a.bits.toInt

/-- The integer with the value of `v`, reduced to `n` bits. -/
def ofInt (v : Int) : Signed n := ⟨BitVec.ofInt n v⟩

instance : Message (Signed n) where
  supports _ := true
  reduce
    | .sum, a, b => ⟨a.bits + b.bits⟩
    | .min, a, b => if b.toInt < a.toInt then b else a
    | .max, a, b => if a.toInt < b.toInt then b else a
    | .first, a, _ => a
    | .none, a, _ => a

end Signed

/-! ## Floating-point numbers -/

/-- The smaller number; what is not a number is ignored next to a number. -/
def Float.smaller (a b : Float) : Float := if b.isNaN || a < b then a else b

/-- The larger number; what is not a number is ignored next to a number. -/
def Float.larger (a b : Float) : Float := if b.isNaN || b < a then a else b

instance : Message Float where
  supports _ := true
  reduce
    | .sum, a, b => a + b
    | .min, a, b => Float.smaller a b
    | .max, a, b => Float.larger a b
    | .first, a, _ => a
    | .none, a, _ => a

/-- The smaller number; what is not a number is ignored next to a number. -/
def Float32.smaller (a b : Float32) : Float32 := if b.isNaN || a < b then a else b

/-- The larger number; what is not a number is ignored next to a number. -/
def Float32.larger (a b : Float32) : Float32 := if b.isNaN || b < a then a else b

instance : Message Float32 where
  supports _ := true
  reduce
    | .sum, a, b => a + b
    | .min, a, b => Float32.smaller a b
    | .max, a, b => Float32.larger a b
    | .first, a, _ => a
    | .none, a, _ => a

/-! ## Ids and texts -/

instance : Message NodeId where
  supports kind := kind ≠ .sum
  reduce
    | .min, a, b => if b < a then b else a
    | .max, a, b => if a < b then b else a
    | _, a, _ => a

instance : Message String := {}

end Superstep
