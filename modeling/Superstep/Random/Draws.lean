import Superstep.Random.KeyStream
import Superstep.Word

/-!
# Uniform draws

What a random graph is drawn from: ids below a bound, and weights. `Draws S W` is any source of
them with states `S`; `KeyStream.draws` draws from the key stream of a seed.

Both draws reject some words of the stream and try again. A rejection is never more likely than
not, and after `attempts` of them the draw takes what it has, so that drawing always ends.

Main statement: `below_lt`, an id drawn below a positive bound is below it.
-/

namespace Superstep.Random

/-- A source of random ids and weights. -/
structure Draws (S W : Type) where
  /-- An id below a positive bound. -/
  below : UInt64 → S → UInt64 × S
  weight : S → W × S

namespace KeyStream

/-- How often a draw is tried. -/
def attempts : Nat := 256

/-- The number of zero bits above the highest bit that is set in a 64-bit word. -/
def leadingZeros (n : UInt64) : UInt64 := if n = 0 then 64 else 63 - n.toNat.log2.toUInt64

/-- The upper half of the product of two words: the second, scaled by the first as a fraction. -/
def scale (word bound : UInt64) : UInt64 := (word.toNat * bound.toNat / wordLimit).toUInt64

/-- The words whose product with `bound` has a lower half up to this limit are as many for each
    result: the largest multiple of the bound that is a power of two times it, less one. -/
def zone (bound : UInt64) : UInt64 := (bound <<< leadingZeros bound) - 1

/-- Draws a number below `bound`: a word is scaled, and rejected if its lower half is outside the
    zone. -/
def belowFuel (bound : UInt64) : Nat → KeyStream → UInt64 × KeyStream
  | 0, s =>
    let (word, s) := s.next
    (scale word bound, s)
  | fuel + 1, s =>
    let (word, s) := s.next
    if word * bound ≤ zone bound then (scale word bound, s) else belowFuel bound fuel s

/-- The number in `[1, 10)` that the upper 52 bits of a word stand for. -/
def weightOf (word : UInt64) : Float :=
  (Float.ofBits (word >>> 12 ||| 0x3ff0000000000000) - 1.0) * 9.0 + 1.0

/-- Draws a weight from `[1, 10)`. -/
def weightFuel : Nat → KeyStream → Float × KeyStream
  | 0, s =>
    let (word, s) := s.next
    (weightOf word, s)
  | fuel + 1, s =>
    let (word, s) := s.next
    if weightOf word < 10.0 then (weightOf word, s) else weightFuel fuel s

/-- The draws from a key stream. -/
def draws : Draws KeyStream Float where
  below bound s := belowFuel bound (attempts - 1) s
  weight s := weightFuel (attempts - 1) s

theorem scale_lt {word bound : UInt64} (h : 0 < bound) : scale word bound < bound := by
  have hb : 0 < bound.toNat := by simpa [UInt64.lt_iff_toNat_lt] using h
  have hlt : word.toNat * bound.toNat / wordLimit < bound.toNat := by
    apply Nat.div_lt_of_lt_mul
    exact Nat.mul_lt_mul_of_pos_right (toNat_lt_wordLimit word) hb
  rw [UInt64.lt_iff_toNat_lt, scale, toNat_toUInt64 (Nat.lt_trans hlt (toNat_lt_wordLimit bound))]
  exact hlt

theorem belowFuel_lt {bound : UInt64} (h : 0 < bound) (fuel : Nat) (s : KeyStream) :
    (belowFuel bound fuel s).1 < bound := by
  induction fuel generalizing s with
  | zero => exact scale_lt h
  | succ fuel ih =>
    unfold belowFuel
    dsimp only
    split
    · exact scale_lt h
    · exact ih _

/-- An id drawn below a positive bound is below it. -/
theorem below_lt {bound : UInt64} (h : 0 < bound) (s : KeyStream) :
    (draws.below bound s).1 < bound :=
  belowFuel_lt h _ s

end KeyStream

end Superstep.Random
