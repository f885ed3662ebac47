import Superstep.Decimal.Natural

/-!
# Floating-point literals

The text of a floating-point number: an optional sign, then `inf`, `infinity` or `nan` in any
case, or digits with an optional point among them (at least one digit in all) and an optional
exponent. `Literal.read?` is the grammar and `Literal.toFloat` the value: the number nearest to
the decimal value, where values out of range become infinite.
-/

namespace Superstep.Decimal

/-- What a floating-point literal says: a sign and a magnitude. -/
inductive Literal where
  | infinity (negative : Bool)
  | notANumber
  /-- The value `mantissa * 10 ^ exponent`. -/
  | decimal (negative : Bool) (mantissa : Nat) (exponent : Int)
deriving DecidableEq

namespace Literal

/-- The value of a run of digits, read onto `value`. -/
def digitsValue (value : Nat) (ds : List Char) : Nat :=
  ds.foldl (fun n c => n * 10 + (c.toNat - '0'.toNat)) value

/-- Reads an optional sign: whether it is a minus, and the rest. -/
def sign : List Char → Bool × List Char
  | '+' :: cs => (false, cs)
  | '-' :: cs => (true, cs)
  | cs => (false, cs)

/-- Reads what may follow the digits: nothing, or an exponent with at least one digit. -/
def exponent? : List Char → Option Int
  | [] => some 0
  | c :: cs =>
    if c = 'e' || c = 'E' then
      match sign cs with
      | (_, []) => none
      | (negative, d :: ds) =>
        if (d :: ds).all Char.isDigit then
          let n := digitsValue 0 (d :: ds)
          some (if negative then -(n : Int) else n)
        else none
    else none

/-- Splits the digits after a point from what follows them; without a point there are none. -/
def fraction : List Char → List Char × List Char
  | '.' :: cs => (cs.takeWhile Char.isDigit, cs.dropWhile Char.isDigit)
  | cs => ([], cs)

/-- Reads an unsigned decimal number. -/
def number? (negative : Bool) (cs : List Char) : Option Literal :=
  let whole := cs.takeWhile Char.isDigit
  let (part, rest) := fraction (cs.dropWhile Char.isDigit)
  if whole.isEmpty && part.isEmpty then none
  else
    (exponent? rest).map fun e =>
      .decimal negative (digitsValue (digitsValue 0 whole) part) (e - part.length)

/-- Reads a floating-point literal. -/
def read? (cs : List Char) : Option Literal :=
  let (negative, rest) := sign cs
  let word := String.ofList (rest.map Char.toLower)
  if word = "inf" || word = "infinity" then some (.infinity negative)
  else if word = "nan" then some .notANumber
  else number? negative rest

/-- The floating-point number nearest to what the literal says. -/
def toFloat : Literal → Float
  | .infinity negative => if negative then -1.0 / 0.0 else 1.0 / 0.0
  | .notANumber => 0.0 / 0.0
  | .decimal negative mantissa exponent =>
    let magnitude := Float.ofScientific mantissa (exponent < 0) exponent.natAbs
    if negative then -magnitude else magnitude

end Literal

/-- Reads a floating-point number. -/
def readFloat? (cs : List Char) : Option Float := (Literal.read? cs).map Literal.toFloat

end Superstep.Decimal
