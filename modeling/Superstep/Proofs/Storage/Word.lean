import Mathlib.Data.Nat.Bitwise
import Mathlib.Tactic
import Superstep.Storage.Bitset

/-!
# The bits of a word

What the operations on words do to single bits. `Bitset.testBit` is the only way in which a word is
looked at; every other operation is described by it.

Results:
* `testBit_rangeMask`: the bits of a mask are those that stand for numbers of its range.
* `lowestBit_spec`, `testBit_dropLowestBit`: a word that is not zero has a lowest bit, and dropping
  it leaves the others.
* `bitCount_eq`: the number of bits that are set.
-/

namespace Superstep.Bitset

/-! ## Single bits -/

theorem toNat_bit {i : Nat} (hi : i < wordBits) : (bit i).toNat = 2 ^ i := by
  unfold wordBits at hi
  have hmod : i % 18446744073709551616 = i := Nat.mod_eq_of_lt (by omega)
  have hpow : 2 ^ i < 2 ^ 64 := Nat.pow_lt_pow_right (by norm_num) hi
  rw [bit, UInt64.toNat_shiftLeft, Nat.toUInt64, UInt64.toNat_ofNat', Nat.shiftLeft_eq]
  simp only [UInt64.toNat_one, one_mul]
  rw [show i % 2 ^ 64 % 64 = i by omega, Nat.mod_eq_of_lt hpow]

theorem testBit_eq {w : UInt64} {i : Nat} (hi : i < wordBits) :
    testBit w i = w.toNat.testBit i := by
  have hbit : (w &&& bit i).toNat = 2 ^ i * (w.toNat.testBit i).toNat := by
    rw [UInt64.toNat_and, toNat_bit hi, Nat.and_two_pow]
    ring
  unfold testBit
  cases h : w.toNat.testBit i with
  | false =>
    have hzero : w &&& bit i = 0 := UInt64.toNat_inj.1 (by rw [hbit, h]; rfl)
    simp [hzero]
  | true =>
    have hne : w &&& bit i ≠ 0 := by
      intro hzero
      rw [hzero, h] at hbit
      have := Nat.two_pow_pos i
      simp at hbit
      omega
    simp [hne]

theorem testBit_toNat_eq_false {w : UInt64} {i : Nat} (hi : wordBits ≤ i) :
    w.toNat.testBit i = false := by
  refine Nat.testBit_eq_false_of_lt (lt_of_lt_of_le w.toNat_lt ?_)
  exact Nat.pow_le_pow_right (by norm_num) hi

theorem eq_of_testBit {v w : UInt64} (h : ∀ i < wordBits, testBit v i = testBit w i) : v = w := by
  apply UInt64.toNat_inj.1
  apply Nat.eq_of_testBit_eq
  intro i
  by_cases hi : i < wordBits
  · rw [← testBit_eq hi, ← testBit_eq hi]
    exact h i hi
  · rw [testBit_toNat_eq_false (by omega), testBit_toNat_eq_false (by omega)]

@[simp] theorem testBit_zero (i : Nat) : testBit 0 i = false := by
  simp [testBit]

theorem testBit_or {v w : UInt64} {i : Nat} (hi : i < wordBits) :
    testBit (v ||| w) i = (testBit v i || testBit w i) := by
  rw [testBit_eq hi, testBit_eq hi, testBit_eq hi, UInt64.toNat_or, Nat.testBit_or]

theorem testBit_and {v w : UInt64} {i : Nat} (hi : i < wordBits) :
    testBit (v &&& w) i = (testBit v i && testBit w i) := by
  rw [testBit_eq hi, testBit_eq hi, testBit_eq hi, UInt64.toNat_and, Nat.testBit_and]

theorem testBit_not {w : UInt64} {i : Nat} (hi : i < wordBits) :
    testBit (~~~w) i = !testBit w i := by
  have h : (~~~w).toNat = 2 ^ 64 - (w.toNat + 1) := by
    rw [UInt64.toNat_not]
    norm_num
    omega
  rw [testBit_eq hi, testBit_eq hi, h, Nat.testBit_two_pow_sub_succ w.toNat_lt]
  simp [show i < 64 from hi]

theorem testBit_bit {i j : Nat} (hi : i < wordBits) (hj : j < wordBits) :
    testBit (bit j) i = decide (j = i) := by
  rw [testBit_eq hi, toNat_bit hj, Nat.testBit_two_pow]

theorem testBit_bitsBelow {i j : Nat} (hi : i < wordBits) :
    testBit (bitsBelow j) i = decide (i < j) := by
  unfold bitsBelow
  by_cases hj : j < wordBits
  · have hone : (1 : UInt64) ≤ bit j := by
      rw [UInt64.le_iff_toNat_le, toNat_bit hj]
      exact Nat.one_le_two_pow
    rw [if_pos hj, testBit_eq hi, UInt64.toNat_sub_of_le _ _ hone, toNat_bit hj]
    exact Nat.testBit_two_pow_sub_one j i
  · rw [if_neg hj, show (-1 : UInt64) = ~~~0 by decide, testBit_not hi]
    simp
    omega

/-- The bits of a mask are those that stand for numbers of its range. -/
theorem testBit_rangeMask {word start stop i : Nat} (hi : i < wordBits) :
    testBit (rangeMask word start stop) i =
      decide (start ≤ word * wordBits + i ∧ word * wordBits + i < stop) := by
  unfold rangeMask
  simp only
  split_ifs with h
  · rw [testBit_zero]
    symm
    simp only [decide_eq_false_iff_not]
    unfold wordBits at *
    omega
  · rw [testBit_and hi, testBit_not hi, testBit_bitsBelow hi, testBit_bitsBelow hi,
      ← decide_not, ← Bool.decide_and]
    congr 1
    apply propext
    unfold wordBits at *
    omega

/-! ## The lowest bit -/

/-- The lowest bit of a word that is not zero: it is set, and none below it is. -/
theorem lowestBit_spec {w : UInt64} (h : w ≠ 0) :
    lowestBit w < wordBits ∧ testBit w (lowestBit w) = true ∧
      ∀ i < lowestBit w, testBit w i = false := by
  have hex : ∃ i < wordBits, testBit w i = true := by
    by_contra hno
    push Not at hno
    apply h
    apply eq_of_testBit
    intro i hi
    rw [testBit_zero]
    simpa using hno i hi
  obtain ⟨i, hi, hset⟩ := hex
  obtain ⟨j, hj⟩ : ∃ j, (List.range wordBits).find? (testBit w) = some j := by
    apply Option.isSome_iff_exists.1
    rw [List.find?_isSome]
    exact ⟨i, List.mem_range.2 hi, hset⟩
  have hlow : lowestBit w = j := by
    unfold lowestBit
    rw [hj]
    rfl
  rw [List.find?_range_eq_some] at hj
  obtain ⟨hset, hmem, hbelow⟩ := hj
  rw [hlow]
  exact ⟨List.mem_range.1 hmem, hset, fun i hi => by simpa using hbelow i hi⟩

/-- Below its lowest bit a word is zero, so that it is an odd multiple of a power of two. -/
theorem toNat_eq_lowestBit {w : UInt64} (h : w ≠ 0) :
    ∃ q, w.toNat = 2 ^ (lowestBit w + 1) * q + 2 ^ lowestBit w := by
  obtain ⟨hlt, hset, hbelow⟩ := lowestBit_spec h
  refine ⟨w.toNat / 2 ^ (lowestBit w + 1), ?_⟩
  have hmod : w.toNat % 2 ^ (lowestBit w + 1) = 2 ^ lowestBit w := by
    apply Nat.eq_of_testBit_eq
    intro i
    rw [Nat.testBit_mod_two_pow, Nat.testBit_two_pow]
    by_cases hi : i < lowestBit w
    · rw [← testBit_eq (by omega), hbelow i hi]
      simp
      omega
    · by_cases he : lowestBit w = i
      · rw [← he, ← testBit_eq hlt, hset]
        simp
      · simp [he]
        omega
  rw [← hmod]
  exact (Nat.div_add_mod _ _).symm

/-- Dropping the lowest bit leaves the others. -/
theorem testBit_dropLowestBit {w : UInt64} (h : w ≠ 0) {i : Nat} (hi : i < wordBits) :
    testBit (dropLowestBit w) i = (testBit w i && decide (i ≠ lowestBit w)) := by
  obtain ⟨q, hq⟩ := toNat_eq_lowestBit h
  obtain ⟨hlt, hset, hbelow⟩ := lowestBit_spec h
  generalize lowestBit w = k at *
  have hk : 2 ^ k < 2 ^ (k + 1) := Nat.pow_lt_pow_right (by norm_num) (by omega)
  have hone : (1 : UInt64) ≤ w := by
    rw [UInt64.le_iff_toNat_le, hq]
    have := Nat.one_le_two_pow (n := k)
    simp only [UInt64.toNat_one]
    omega
  have hpred : (w - 1).toNat = 2 ^ (k + 1) * q + (2 ^ k - 1) := by
    rw [UInt64.toNat_sub_of_le _ _ hone, hq]
    have := Nat.one_le_two_pow (n := k)
    simp only [UInt64.toNat_one]
    omega
  rw [dropLowestBit, testBit_and hi]
  by_cases hik : i < k
  · rw [hbelow i hik]
    simp
  · rw [testBit_eq (w := w - 1) hi, hpred, Nat.testBit_two_pow_mul_add _ (by omega),
      testBit_eq (w := w) hi, hq, Nat.testBit_two_pow_mul_add _ hk]
    by_cases hie : i = k
    · simp [hie]
    · rw [if_neg (by omega), if_neg (by omega), Bool.and_self]
      simp [hie]

/-! ## The number of bits -/

theorem bitCount_eq (w : UInt64) :
    bitCount w = ((Finset.range wordBits).filter fun i => testBit w i = true).card := by
  unfold bitCount
  rw [List.countP_eq_length_filter, ← List.toFinset_card_of_nodup (List.nodup_range.filter _),
    List.toFinset_filter, List.toFinset_range]

end Superstep.Bitset
