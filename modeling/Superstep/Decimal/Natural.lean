import Superstep.Word

/-!
# Decimal text of natural numbers

Writing is `Decimal.digits`; reading is `Decimal.readNat`, which also knows an upper bound: the
formats of this library store numbers in words of 16 to 64 bits, and a number that does not fit is
a fault of its own.

Reading takes an optional plus sign and then ASCII digits only. Digits are read from the left, and
the first fault met is the one reported: at each character a wrong digit counts before a number
that has grown too large.

Main statements: `readNat_nil`, `readNat_lone_sign`, `readDigits_lt` (a number that is read is
below the bound).
-/

namespace Superstep.Decimal

/-- The decimal digits of a number, most significant first. -/
def digits (n : Nat) : List Char := Nat.toDigits 10 n

/-- The decimal text of a number. -/
def text (n : Nat) : String := String.ofList (digits n)

/-- Why a text is not a number. -/
inductive Fault where
  | empty
  | invalidDigit
  | overflow
deriving DecidableEq

/-- The wording of a fault. -/
def Fault.message : Fault → String
  | .empty => "cannot parse integer from empty string"
  | .invalidDigit => "invalid digit found in string"
  | .overflow => "number too large to fit in target type"

/-- The value of an ASCII digit. -/
def digitValue? (c : Char) : Option Nat :=
  if c.isDigit then some (c.toNat - '0'.toNat) else none

/-- Reads digits from the left onto the value read so far, which stays below `bound`. -/
def readDigits (bound : Nat) (value : Nat) : List Char → Except Fault Nat
  | [] => .ok value
  | c :: cs =>
    match digitValue? c with
    | none => .error .invalidDigit
    | some d =>
      if value * 10 + d < bound then readDigits bound (value * 10 + d) cs else .error .overflow

/-- Reads a number below `bound`: an optional plus sign and at least one digit. A sign alone is a
    wrong digit. -/
def readNat (bound : Nat) : List Char → Except Fault Nat
  | [] => .error .empty
  | '+' :: [] => .error .invalidDigit
  | '+' :: c :: cs => readDigits bound 0 (c :: cs)
  | c :: cs => readDigits bound 0 (c :: cs)

/-- Reads a 64-bit number. -/
def readUInt64 (cs : List Char) : Except Fault UInt64 :=
  (readNat wordLimit cs).map Nat.toUInt64

theorem readNat_nil (bound : Nat) : readNat bound [] = .error .empty := rfl

theorem readNat_lone_sign (bound : Nat) : readNat bound ['+'] = .error .invalidDigit := rfl

/-- What is read from digits is below the bound, if the value read so far is. -/
theorem readDigits_lt {bound value n : Nat} {cs : List Char} (hv : value < bound)
    (h : readDigits bound value cs = .ok n) : n < bound := by
  induction cs generalizing value with
  | nil =>
    simp only [readDigits, Except.ok.injEq] at h
    omega
  | cons c cs ih =>
    unfold readDigits at h
    split at h
    · exact absurd h (by simp)
    · split at h
      · next hlt => exact ih hlt h
      · exact absurd h (by simp)

end Superstep.Decimal
