import Superstep.Decimal.Shortest

/-!
# Shortest decimal text with an exponent

Another text of a finite floating-point number with the fewest digits that read back: positional
when its point stands at most 16 digits after the first one and at most five zeros before it, and
with an exponent otherwise. A number without a fraction ends in `.0`.
-/

namespace Superstep.Decimal

/-- The text of `c * 10 ^ k` for a positive `c`. -/
def scientific (c : Nat) (k : Int) : List Char :=
  let (ds, zeros) := stripZeros (digits c)
  let k := k + zeros
  /- The number of digits before the point. -/
  let point := ds.length + k
  if -5 < point && point ≤ 16 then
    positional c k ++ if 0 ≤ k then ['.', '0'] else []
  else
    let fraction := ds.drop 1
    let exponent := point - 1
    ds.take 1 ++ (if fraction.isEmpty then [] else '.' :: fraction) ++ 'e' ::
      ((if exponent < 0 then ['-'] else []) ++ digits exponent.natAbs)

/-- The text of a finite floating-point number. A zero keeps its sign. -/
def scientificDigits (x : Float) : List Char :=
  let bits := x.toBits
  let sign := if bits >>> 63 = 0 then [] else ['-']
  if bits <<< 1 = 0 then sign ++ "0.0".toList
  else
    let (c, k) := (Binary.ofBits bits).shortest
    sign ++ scientific c k

end Superstep.Decimal
