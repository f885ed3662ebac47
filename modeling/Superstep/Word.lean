/-!
# Machine words

Ids, counts and positions are machine words. What does not fit into a word is an error of its own
wherever it can arise.

`Word.add?`, `sub?`, `mul?` and `div?` are sums, differences, products and quotients of words that
fail if the result among the natural numbers is no word, or if there is none. A computation that is
written with them and succeeds has not wrapped anywhere.

Main statements: `add?_of_lt`, `sub?_of_le`, `mul?_of_lt` and `div?_of_ne`, when an operation
succeeds; `toNat_add_of_lt` and `toNat_mul_of_lt`, what its result is.
-/

namespace Superstep

/-- The number of values of a 64-bit word. -/
def wordLimit : Nat := 18446744073709551616

/-- The number of values of a 32-bit word. -/
def halfWordLimit : Nat := 4294967296

theorem toNat_lt_wordLimit (w : UInt64) : w.toNat < wordLimit := w.toNat_lt

theorem toNat_toUInt64 {n : Nat} (h : n < wordLimit) : n.toUInt64.toNat = n := by
  simp only [Nat.toUInt64, UInt64.toNat_ofNat']
  exact Nat.mod_eq_of_lt h

namespace Word

variable {a b : UInt64}

/-- The sum of two words, if it is a word. -/
def add? (a b : UInt64) : Option UInt64 :=
  if a.toNat + b.toNat < wordLimit then some (a + b) else none

/-- The difference of two words, if it is not negative. -/
def sub? (a b : UInt64) : Option UInt64 := if b ≤ a then some (a - b) else none

/-- The product of two words, if it is a word. -/
def mul? (a b : UInt64) : Option UInt64 :=
  if a.toNat * b.toNat < wordLimit then some (a * b) else none

/-- The quotient of two words, if the second is not zero. -/
def div? (a b : UInt64) : Option UInt64 := if b = 0 then none else some (a / b)

theorem add?_of_lt (h : a.toNat + b.toNat < wordLimit) : add? a b = some (a + b) := if_pos h

theorem sub?_of_le (h : b ≤ a) : sub? a b = some (a - b) := if_pos h

theorem mul?_of_lt (h : a.toNat * b.toNat < wordLimit) : mul? a b = some (a * b) := if_pos h

theorem mul?_eq_none (h : wordLimit ≤ a.toNat * b.toNat) : mul? a b = none :=
  if_neg (Nat.not_lt.2 h)

theorem div?_of_ne (h : b ≠ 0) : div? a b = some (a / b) := if_neg h

theorem toNat_add_of_lt (h : a.toNat + b.toNat < wordLimit) :
    (a + b).toNat = a.toNat + b.toNat := by
  rw [UInt64.toNat_add]
  exact Nat.mod_eq_of_lt h

theorem toNat_mul_of_lt (h : a.toNat * b.toNat < wordLimit) :
    (a * b).toNat = a.toNat * b.toNat := by
  rw [UInt64.toNat_mul]
  exact Nat.mod_eq_of_lt h

end Word

end Superstep
