/-!
# Reserving memory

Large arrays are reserved before they are filled, and a reservation that is refused is an ordinary
error. Which reservations are granted is up to a `Memory.Allocator`. The same allocator is asked
for lists that are made in passing, but for them a refusal is a panic, with the text
`Memory.overflow`.

Addresses have at most 57 bits, so that no allocator grants more bytes than `Memory.addressSpace`.
Programs run with `Memory.limited`, which grants what stays within `Memory.limit`.
-/

namespace Superstep

/-- A reservation of `requested` elements that could not be met. -/
structure AllocationError where
  requested : Nat
deriving DecidableEq

namespace Memory

/-- The number of bytes that have an address: `2 ^ 57`. -/
def addressSpace : Nat := 144115188075855872

/-- An allocator: whether it grants room for a number of elements of some bytes each. Nothing is
    always granted. What it grants has addresses, and where it grants some number of elements it
    grants fewer of them too. -/
class Allocator where
  grants (count bytes : Nat) : Bool
  grants_zero {bytes : Nat} : grants 0 bytes
  le_addressSpace {count bytes : Nat} : grants count bytes → count * bytes ≤ addressSpace
  grants_of_le {count count' bytes : Nat} :
    count ≤ count' → grants count' bytes → grants count bytes

/-- The largest size in bytes that `limited` grants: `2 ^ 50`. -/
def limit : Nat := 1125899906842624

/-- The allocator that grants what stays within `limit`. -/
instance limited : Allocator where
  grants count bytes := count * bytes ≤ limit
  grants_zero := decide_eq_true (by rw [Nat.zero_mul]; exact Nat.zero_le limit)
  le_addressSpace h := Nat.le_trans (of_decide_eq_true h) (by decide)
  grants_of_le hle h :=
    decide_eq_true (Nat.le_trans (Nat.mul_le_mul_right _ hle) (of_decide_eq_true h))

/-- Whether `count` elements of `bytes` bytes each can be reserved. -/
def fits [Allocator] (count bytes : Nat) : Bool := Allocator.grants count bytes

/-- Reserves `count` elements of `bytes` bytes each. -/
def reserve [Allocator] (count bytes : Nat) : Except AllocationError Unit :=
  if fits count bytes then .ok () else .error ⟨count⟩

/-- The text of the panic of a list that does not fit. -/
def overflow : String := "capacity overflow"

/-- The size of a machine word, and of anything stored in one. -/
def wordBytes : Nat := 8

/-- The size of an entry that holds two words: a pair of node ids, or a page with its length. -/
def pairBytes : Nat := 16

/-- The size of an entry that holds three words. -/
def tripleBytes : Nat := 24

theorem le_addressSpace_of_fits [Allocator] {count bytes : Nat} (h : fits count bytes) :
    count * bytes ≤ addressSpace := Allocator.le_addressSpace h

@[simp] theorem fits_zero [Allocator] {bytes : Nat} : fits 0 bytes = true := Allocator.grants_zero

theorem fits_of_le [Allocator] {count count' bytes : Nat} (hle : count ≤ count')
    (h : fits count' bytes) : fits count bytes := Allocator.grants_of_le hle h

theorem reserve_eq_ok_iff [Allocator] {count bytes : Nat} :
    reserve count bytes = .ok () ↔ fits count bytes := by
  unfold reserve
  split <;> simp_all

end Memory

end Superstep
