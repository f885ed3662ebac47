import Superstep.Decimal.Real
import Superstep.Decimal.Shortest

/-!
# Weights

Graphs are defined for any type of weights that has a unit weight, a test for finite weights and a
text form. The weights of the program are double-precision numbers.
-/

namespace Superstep

/-- What the weights of relationships must offer. -/
class Weight (W : Type) where
  /-- The weight of a relationship that has none of its own. -/
  unit : W
  /-- Whether a relationship may be added with this weight. -/
  isFinite : W → Bool
  /-- The parts of the text of a weight. -/
  parts : W → List (List Char)
  /-- The weight that a text stands for. -/
  read? : List Char → Option W

/-- The text of a weight. -/
def Weight.digits {W : Type} [Weight W] (weight : W) : List Char := (Weight.parts weight).flatten

instance : Weight Float where
  unit := 1.0
  isFinite := Float.isFinite
  parts := Decimal.floatParts
  read? := Decimal.readFloat?

end Superstep
