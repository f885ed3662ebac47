import Superstep.Decimal.Natural

/-!
# Shortest decimal text of a floating-point number

A finite floating-point number is written with the fewest digits that read back as the same
number, always in positional notation: no exponent, and no point when there is no fraction.

The number is `m * 2 ^ q` (`Binary`). Every real number of an interval around it rounds to it; the
ends belong to the interval when `m` is even. `shortest` looks at the decimal grids from the
coarsest to the finest and takes the first grid with a point in the interval. A grid has at most
two points to look at, the neighbours of the number; if both lie in the interval the nearer is
taken, and of two equally near ones the larger. All comparisons are between natural numbers.

A text is given in parts (`floatParts`), because a writer with a buffer takes one part at a time;
the text itself is their concatenation (`floatDigits`).

Main statement: `flatten_zeroParts`, the parts of a number of zeros hold that many zeros.
-/

namespace Superstep.Decimal

/-- A positive number `mantissa * 2 ^ exponent`, with what its neighbours need: whether the next
    smaller number of the format is only half as far away as the next larger one. -/
structure Binary where
  mantissa : Nat
  exponent : Int
  closeBelow : Bool

namespace Binary

/-- The positive number that the low 63 bits of a finite double-precision pattern stand for. -/
def ofBits (bits : UInt64) : Binary :=
  let field := (bits >>> 52 &&& 0x7ff).toNat
  let fraction := (bits &&& 0xfffffffffffff).toNat
  if field = 0 then ⟨fraction, -1074, false⟩
  else ⟨fraction + 0x10000000000000, (field : Int) - 1075, fraction = 0 && field > 1⟩

/-- Scale factors `p` and `r` such that `c * 10 ^ k` is compared with `x * 2 ^ (exponent - 2)` as
    `c * p` with `x * r`. -/
def scales (b : Binary) (k : Int) : Nat × Nat :=
  let q := b.exponent - 2
  (Nat.pow 10 k.toNat <<< (-q).toNat, Nat.pow 10 (-k).toNat <<< q.toNat)

/-- The grid point `c * 10 ^ k` lies in the interval of the numbers that round to `b`. -/
def rounds (b : Binary) (k : Int) (c : Nat) : Bool :=
  let (p, r) := b.scales k
  let low := (4 * b.mantissa - if b.closeBelow then 1 else 2) * r
  let high := (4 * b.mantissa + 2) * r
  if b.mantissa % 2 = 0 then low ≤ c * p && c * p ≤ high else low < c * p && c * p < high

/-- The point of the grid of step `10 ^ k` that stands for `b`, if one does. A grid whose step is
    larger than `b` has none. -/
def gridPoint? (b : Binary) (k : Int) : Option Nat :=
  let (p, r) := b.scales k
  let below := 4 * b.mantissa * r / p
  if below = 0 then none
  else
    match b.rounds k below, b.rounds k (below + 1) with
    | true, true =>
      some (if 2 * (4 * b.mantissa * r) < (2 * below + 1) * p then below else below + 1)
    | true, false => some below
    | false, true => some (below + 1)
    | false, false => none

/-- The first grid point met on the grids of step `10 ^ k`, `10 ^ (k - 1)`, …, with its grid. -/
def search (b : Binary) : Nat → Int → Nat × Int
  | 0, k => ((gridPoint? b k).getD 0, k)
  | fuel + 1, k =>
    match b.gridPoint? k with
    | some c => (c, k)
    | none => search b fuel (k - 1)

/-- The shortest decimal `(c, k)`, read as `c * 10 ^ k`, that stands for `b`. The first grid tried
    is coarser than `b`, and a double-precision number needs at most 17 digits, so that the search
    is over within 20 grids. -/
def shortest (b : Binary) : Nat × Int :=
  let bits : Int := b.mantissa.log2 + 1 + b.exponent
  b.search 24 (bits * 30103 / 100000 + 1)

end Binary

/-- Digits without the zeros at their end, and how many there were. -/
def stripZeros (ds : List Char) : List Char × Nat :=
  let kept := (ds.reverse.dropWhile (· == '0')).reverse
  (kept, ds.length - kept.length)

/-- The longest run of zeros that is one part of a text. -/
def zeroRun : Nat := 64

/-- A number of zeros, in parts: whole runs, and what is left. -/
def zeroParts (n : Nat) : List (List Char) :=
  List.replicate (n / zeroRun) (List.replicate zeroRun '0') ++ [List.replicate (n % zeroRun) '0']

/-- The parts of the positional text of `c * 10 ^ k` for a positive `c`: digits, zeros, and the
    point, which is a part of its own or one with the zero before it. -/
def positionalParts (c : Nat) (k : Int) : List (List Char) :=
  let (ds, zeros) := stripZeros (digits c)
  let k := k + zeros
  if 0 ≤ k then ds :: zeroParts k.toNat
  else
    let places := (-k).toNat
    if places < ds.length then
      [ds.take (ds.length - places), ['.'], ds.drop (ds.length - places)]
    else ['0', '.'] :: zeroParts (places - ds.length) ++ [ds]

/-- The positional text of `c * 10 ^ k` for a positive `c`. -/
def positional (c : Nat) (k : Int) : List Char := (positionalParts c k).flatten

/-- The parts of the text of a floating-point number: its sign, if it has one, and then those of its
    shortest decimal in positional notation, `inf` or `NaN`. A zero keeps its sign. -/
def floatParts (x : Float) : List (List Char) :=
  let bits := x.toBits
  if x.isNaN then ["NaN".toList]
  else
    let sign := if bits >>> 63 = 0 then [] else [['-']]
    if x.isInf then sign ++ ["inf".toList]
    else if bits <<< 1 = 0 then sign ++ [['0']]
    else
      let (c, k) := (Binary.ofBits bits).shortest
      sign ++ positionalParts c k

/-- The text of a floating-point number. -/
def floatDigits (x : Float) : List Char := (floatParts x).flatten

/-- The parts of a number of zeros hold that many zeros. -/
theorem flatten_zeroParts (n : Nat) : (zeroParts n).flatten = List.replicate n '0' := by
  rw [zeroParts, List.flatten_append, List.flatten_replicate_replicate, List.flatten_singleton,
    List.replicate_append_replicate, Nat.div_add_mod']

end Superstep.Decimal
