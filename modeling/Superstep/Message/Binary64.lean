import Superstep.Message.Combiner

/-!
# Floating-point numbers by their bits

A `Float` does not tell one value that is not a number from another. `Binary64` does: it is a
double-precision number given by its 64 bits, the highest of which is the sign. Numbers are added
and compared as `Float`s; what is not a number is passed on with its own bits.

`Binary64.key` orders all of them: those with a sign come first, and within each sign what is not a
number is farthest from zero. Negative zero comes before zero.

Main statements: `add_of_isNaN`, a sum with something that is not a number on its left is that, made
quiet; `smaller_of_isNaN` and `larger_of_isNaN`, the left one is kept next to something that is not
a number.
-/

namespace Superstep

/-- A double-precision number given by its bits. -/
structure Binary64 where
  bits : UInt64
deriving DecidableEq

namespace Binary64

/-- The number that the bits stand for. -/
def toFloat (x : Binary64) : Float := Float.ofBits x.bits

/-- The bits of a number. -/
def ofFloat (x : Float) : Binary64 := ⟨x.toBits⟩

/-- The sign bit alone. -/
def signBit : UInt64 := 0x8000000000000000

/-- The bit that what is not a number has set when it is quiet. -/
def quietBit : UInt64 := 0x0008000000000000

/-- Whether this is not a number: all bits of the exponent are set, and some of the fraction. -/
def isNaN (x : Binary64) : Bool := x.bits &&& ~~~signBit > 0x7ff0000000000000

/-- What is not a number, made quiet. -/
def quiet (x : Binary64) : Binary64 := ⟨x.bits ||| quietBit⟩

/-- The result of an operation on numbers that has none, such as a sum of opposite infinities. -/
def invalid : Binary64 := ⟨0xfff8000000000000⟩

/-- The sum. What is not a number is passed on, that on the left before that on the right. -/
def add (a b : Binary64) : Binary64 :=
  if a.isNaN then a.quiet
  else if b.isNaN then b.quiet
  else
    let sum := a.toFloat + b.toFloat
    if sum.isNaN then invalid else ofFloat sum

/-- The smaller number; what is not a number is ignored next to a number, and of two that are not
    numbers the left one is kept with its bits. -/
def smaller (a b : Binary64) : Binary64 := if b.isNaN || a.toFloat < b.toFloat then a else b

/-- The larger number; what is not a number is ignored next to a number, and of two that are not
    numbers the left one is kept with its bits. -/
def larger (a b : Binary64) : Binary64 := if b.isNaN || b.toFloat < a.toFloat then a else b

instance : Message Binary64 where
  supports _ := true
  reduce
    | .sum, a, b => a.add b
    | .min, a, b => a.smaller b
    | .max, a, b => a.larger b
    | .first, a, _ => a
    | .none, a, _ => a

/-- A word that is ordered like the numbers: those with a sign have all their bits inverted, the
    others their sign bit. -/
def key (x : Binary64) : UInt64 :=
  if x.bits &&& signBit = 0 then x.bits ^^^ signBit else ~~~x.bits

/-- A sum with something that is not a number on its left is that, made quiet. -/
theorem add_of_isNaN {a : Binary64} (h : a.isNaN) (b : Binary64) : a.add b = a.quiet := by
  simp [add, h]

/-- Next to something that is not a number, the left one is the smaller. -/
theorem smaller_of_isNaN {b : Binary64} (h : b.isNaN) (a : Binary64) : a.smaller b = a := by
  simp [smaller, h]

/-- Next to something that is not a number, the left one is the larger. -/
theorem larger_of_isNaN {b : Binary64} (h : b.isNaN) (a : Binary64) : a.larger b = a := by
  simp [larger, h]

end Binary64

end Superstep
