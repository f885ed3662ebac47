import Mathlib
import Superstep.Random.Draws

/-!
# Generated weights are finite

A weight is computed from a word of the key stream by a subtraction, a product and a sum. Each of
these rounds, and a result may only be infinite if its exponent is out of range. Here the bound on
exponents is as coarse as it can be: `Below k` says that a number stays below `2 ^ k` in absolute
value. Rounding may lose one binary digit of this (`Below.round`), and packing a number into its
64 bits and unpacking it again one significand (`Below.repack`); the exponents of the format leave
room for a thousand.

Result: `isFinite_weight`, a draw gives a finite weight in every state of the stream.
-/

namespace Superstep.Random

open Float.Model Float.Model.UnpackedFloat

/-- The number is below `2 ^ k` in absolute value. -/
def Below (k : Int) : UnpackedFloat → Prop
  | .zero _ => True
  | .finite _ m e _ => totalExponent m e ≤ k
  | _ => False

instance (k : Int) : (x : UnpackedFloat) → Decidable (Below k x)
  | .zero _ => isTrue trivial
  | .finite _ m e _ => inferInstanceAs (Decidable (totalExponent m e ≤ k))
  | .infinity _ => isFalse id
  | .notANumber => isFalse id

theorem Below.isFinite {k : Int} {x : UnpackedFloat} (h : Below k x) : x.isFinite := by
  cases x with
  | zero => rfl
  | finite => rfl
  | infinity => exact h.elim
  | notANumber => exact h.elim

theorem Below.mono {k l : Int} {x : UnpackedFloat} (h : Below k x) (hle : k ≤ l) : Below l x := by
  cases x with
  | zero => trivial
  | finite => exact Int.le_trans h hle
  | infinity => exact h
  | notANumber => exact h

/-! ## Rounding -/

theorem mantissa_shift (em : ExtendedMantissa) (n : Nat) :
    (em >>> n).mantissa = em.mantissa / 2 ^ n := by
  induction n with
  | zero => exact (Nat.div_one _).symm
  | succ n ih =>
    change (em >>> n).mantissa / 2 = _
    rw [ih, Nat.div_div_eq_div_mul, Nat.pow_succ]

theorem roundedMantissa_le (em : ExtendedMantissa) : em.roundedMantissa ≤ em.mantissa + 1 := by
  obtain ⟨m, roundBit, stickyBit⟩ := em
  cases roundBit <;> cases stickyBit <;>
    simp only [ExtendedMantissa.roundedMantissa, ExtendedMantissa.accuracy,
      Accuracy.roundToNearestEven] <;>
    omega

theorem totalExponent_lt_of_lt {m l : Nat} (e : Int) (hpos : m ≠ 0) (h : m < 2 ^ l) :
    totalExponent m e ≤ l + e := by
  have := (Nat.log2_lt hpos).2 h
  rw [totalExponent]
  omega

/-- Where the digits of a number end after it has been shifted into the format. -/
def shiftOf (m : Nat) (e : Int) : Nat :=
  (Format.binary64.targetExponent (totalExponent m e) - e).toNat

theorem mantissa_shiftToTargetExponent (m : Nat) (e : Int) :
    (shiftToTargetExponent .binary64 m e .exact).1.mantissa = m / 2 ^ shiftOf m e :=
  mantissa_shift _ _

theorem exponent_shiftToTargetExponent (m : Nat) (e : Int) :
    (shiftToTargetExponent .binary64 m e .exact).2 = e + shiftOf m e :=
  rfl

theorem lt_of_totalExponent {m : Nat} {e k : Int} (hk : 0 ≤ k) (h : totalExponent m e ≤ k) :
    e + shiftOf m e ≤ k ∧ m / 2 ^ shiftOf m e < 2 ^ (k - (e + shiftOf m e)).toNat := by
  have hexponent : e + shiftOf m e ≤ k := by
    simp only [shiftOf, Format.targetExponent, Format.minExponent, Format.mantissaBits,
      totalExponent] at *
    omega
  refine ⟨hexponent, ?_⟩
  rw [Nat.div_lt_iff_lt_mul (Nat.two_pow_pos _), ← Nat.pow_add]
  refine Nat.lt_of_lt_of_le Nat.lt_log2_self (Nat.pow_le_pow_right (by decide) ?_)
  rw [totalExponent] at h
  omega

/-- Rounding stays within the next power of two. -/
theorem Below.round {m : Nat} {e k : Int} (s : Sign) (hk : 0 ≤ k) (h : totalExponent m e ≤ k) :
    Below (k + 1) (roundWithAccuracy .binary64 s m e .exact) := by
  obtain ⟨hexponent, hlt⟩ := lt_of_totalExponent hk h
  -- what the first shift leaves, rounded
  have hrounded := roundedMantissa_le (shiftToTargetExponent .binary64 m e .exact).1
  rw [mantissa_shiftToTargetExponent] at hrounded
  unfold roundWithAccuracy
  dsimp only
  rw [exponent_shiftToTargetExponent]
  generalize (shiftToTargetExponent .binary64 m e .exact).1.roundedMantissa = r at *
  split
  · trivial
  · next hne =>
    rw [mantissa_shiftToTargetExponent] at hne
    have hr : r ≠ 0 := fun h0 => hne (by rw [h0, Nat.zero_div])
    have htotal : totalExponent r (e + shiftOf m e) ≤ k + 1 := by
      have hle : r < 2 ^ ((k - (e + shiftOf m e)).toNat + 1) := by
        rw [Nat.pow_succ]
        omega
      have := totalExponent_lt_of_lt (e + shiftOf m e) hr hle
      omega
    obtain ⟨-, hfinal⟩ := lt_of_totalExponent (by omega) htotal
    change totalExponent (shiftToTargetExponent .binary64 r _ .exact).1.mantissa
      (shiftToTargetExponent .binary64 r _ .exact).2 ≤ _
    rw [mantissa_shiftToTargetExponent, exponent_shiftToTargetExponent]
    have := totalExponent_lt_of_lt (e + shiftOf m e + shiftOf r (e + shiftOf m e)) hne hfinal
    have := (lt_of_totalExponent (by omega) htotal).1
    omega

/-! ## The operations -/

theorem lt_decreaseExponent {m l : Nat} (e e' : Int) (h : m < 2 ^ l) :
    (decreaseExponent m e e').1 < 2 ^ (l + (e - e').toNat) := by
  change m <<< (e - e').toNat < _
  rw [Nat.shiftLeft_eq, Nat.pow_add]
  exact Nat.mul_lt_mul_of_pos_right h (Nat.two_pow_pos _)

theorem decreaseExponent_ne_zero {m : Nat} (e e' : Int) (h : m ≠ 0) :
    (decreaseExponent m e e').1 ≠ 0 := by
  change m <<< (e - e').toNat ≠ 0
  rw [Nat.shiftLeft_eq]
  exact Nat.mul_ne_zero h (Nat.two_pow_pos _).ne'

theorem Below.normalize {m e k : Int} {l : Nat} (s : Sign) (hk : 0 ≤ k) (h : m.natAbs < 2 ^ l)
    (hle : l + e ≤ k) : Below (k + 1) (normalize .binary64 m e s) := by
  have hround : ∀ (s : Sign) (n : Nat), n ≠ 0 → n < 2 ^ l →
      Below (k + 1) (UnpackedFloat.round .binary64 s n e) := by
    intro s n hn hlt
    refine Below.round s hk (Int.le_trans (totalExponent_lt_of_lt _
      (decreaseExponent_ne_zero e _ hn) (lt_decreaseExponent e _ hlt)) ?_)
    omega
  unfold UnpackedFloat.normalize
  split
  · next hneg =>
    have := Int.compare_eq_lt.1 hneg
    exact hround _ _ (by omega) (by omega)
  · trivial
  · next hpos =>
    have := Int.compare_eq_gt.1 hpos
    exact hround _ _ (by omega) (by omega)

section Operations

variable {x y : UnpackedFloat} {k : Int}

theorem natAbs_apply_lt {m : Nat} {e e' : Int} (s : Sign) (hle : e' ≤ e)
    (h : totalExponent m e ≤ k) :
    (s.apply (decreaseExponent m e e').1).natAbs < 2 ^ (k - e').toNat := by
  have habs : ∀ n : Nat, (s.apply n).natAbs = n := fun n => by cases s <;> simp [Sign.apply]
  rw [habs]
  refine Nat.lt_of_lt_of_le (lt_decreaseExponent e e' Nat.lt_log2_self)
    (Nat.pow_le_pow_right (by decide) ?_)
  rw [totalExponent] at h
  omega

theorem Below.add (hk : 0 ≤ k) (hx : Below k x) (hy : Below k y) :
    Below (k + 2) (UnpackedFloat.add .binary64 x y) := by
  cases x with
  | infinity => exact hx.elim
  | notANumber => exact hx.elim
  | zero s =>
    cases y with
    | infinity => exact hy.elim
    | notANumber => exact hy.elim
    | finite => exact hy.mono (by omega)
    | zero s' => cases s <;> cases s' <;> trivial
  | finite s m e hm =>
    cases y with
    | infinity => exact hy.elim
    | notANumber => exact hy.elim
    | zero => exact hx.mono (by omega)
    | finite s' m' e' hm' =>
      have hm := natAbs_apply_lt s (Int.min_le_left e e') hx
      have hm' := natAbs_apply_lt s' (Int.min_le_right e e') hy
      have he : min e e' ≤ k := by
        have : totalExponent m e ≤ k := hx
        rw [totalExponent] at this
        omega
      have hsum := Nat.lt_of_le_of_lt (Int.natAbs_add_le _ _) (Nat.add_lt_add hm hm')
      rw [← Nat.mul_two, ← Nat.pow_succ] at hsum
      have hnormalize := Below.normalize (k := k + 1) (e := min e e') .positive (by omega) hsum
        (by omega)
      rwa [Int.add_assoc] at hnormalize

theorem sub_eq_add_neg (x y : UnpackedFloat) :
    UnpackedFloat.sub .binary64 x y = UnpackedFloat.add .binary64 x y.neg := by
  have happly : ∀ (s : Sign) (n : Int), (-s).apply n = -s.apply n := fun s n => by
    cases s
    · exact (Int.neg_neg n).symm
    · rfl
  cases x <;> cases y <;> try rfl
  next s m e hm s' m' e' hm' =>
    simp only [UnpackedFloat.sub, UnpackedFloat.neg, UnpackedFloat.add, happly, Int.sub_eq_add_neg]

theorem Below.neg (h : Below k x) : Below k x.neg := by
  cases x <;> exact h

theorem Below.sub (hk : 0 ≤ k) (hx : Below k x) (hy : Below k y) :
    Below (k + 2) (UnpackedFloat.sub .binary64 x y) := by
  rw [sub_eq_add_neg]
  exact hx.add hk hy.neg

/-- The mantissa of a product is the product of the mantissas. -/
theorem Below.mul {l : Int} (hk : 0 ≤ k) (hl : 0 ≤ l) (hx : Below k x) (hy : Below l y) :
    Below (k + l + 1) (UnpackedFloat.mul .binary64 x y) := by
  cases x with
  | infinity => exact hx.elim
  | notANumber => exact hx.elim
  | zero =>
    cases y with
    | infinity => exact hy.elim
    | notANumber => exact hy.elim
    | zero => trivial
    | finite => trivial
  | finite s m e hm =>
    cases y with
    | infinity => exact hy.elim
    | notANumber => exact hy.elim
    | zero => trivial
    | finite s' m' e' hm' =>
      have hlt : m * m' < 2 ^ (m.log2 + 1 + (m'.log2 + 1)) := by
        rw [Nat.pow_add]
        exact Nat.mul_lt_mul'' Nat.lt_log2_self Nat.lt_log2_self
      refine Below.round (s * s') (by omega) (Int.le_trans
        (totalExponent_lt_of_lt (e + e') (Nat.mul_pos hm hm').ne' hlt) ?_)
      have hx : totalExponent m e ≤ k := hx
      have hy : totalExponent m' e' ≤ l := hy
      rw [totalExponent] at hx hy
      omega

end Operations

/-! ## The 64 bits -/

theorem Below.of_lt {k e : Int} {m l : Nat} (s : Sign) (hpos : 0 < m) (hlt : m < 2 ^ l)
    (hle : l + e ≤ k) : Below k (.finite s m e hpos) :=
  Int.le_trans (totalExponent_lt_of_lt e hpos.ne' hlt) hle

/-- The exponent field bounds a number that is not infinite. -/
theorem below_unpack {b : BitVec Format.binary64.numBits}
    (h : unpackExponent b ≠ -1#11) :
    Below ((unpackExponent b).toNat - 1021) (unpack .binary64 b) := by
  have hbias : (Format.binary64.exponentBias : Int) + Format.binary64.mantissaBitsWithoutImplicit =
      1075 := by decide
  unfold UnpackedFloat.unpack
  dsimp only
  rw [if_neg h, hbias]
  split
  · split
    · trivial
    · refine .of_lt _ _ (unpackMantissa b).isLt ?_
      change ((52 : Nat) : Int) + _ ≤ _
      omega
  · refine .of_lt _ _ (1#1 ++ unpackMantissa b).isLt ?_
    change ((53 : Nat) : Int) + _ ≤ _
    omega

/-- A number far below the largest one stays finite in its 64 bits. -/
theorem Below.repack {k : Int} {x : UnpackedFloat} (hk : 0 ≤ k) (hlt : k < 900) (h : Below k x) :
    Below (k + 54) (Float.Model.pack x).unpack := by
  have hfield : ∀ (s : Sign) (field : Nat) (m : BitVec 52), (field : Int) ≤ k + 1075 →
      Below (k + 54) (unpack .binary64
        (packComponents .binary64 s (BitVec.ofNat 11 field) m)) := by
    intro s field m hle
    have hnat : (BitVec.ofNat 11 field).toNat = field := by
      rw [BitVec.toNat_ofNat, Nat.mod_eq_of_lt (by omega)]
    have hexponent : unpackExponent (packComponents .binary64 s (BitVec.ofNat 11 field) m) =
        BitVec.ofNat 11 field := unpackExponent_packComponents
    refine (below_unpack ?_).mono ?_
    · rw [hexponent]
      intro heq
      have hone : field = 2047 := by rw [← hnat, heq]; rfl
      omega
    · rw [hexponent, hnat]
      omega
  cases x with
  | infinity => exact h.elim
  | notANumber => exact h.elim
  | zero s => cases s <;> trivial
  | finite s m e hm =>
    have he : e ≤ k - 1 := by
      have h : totalExponent m e ≤ k := h
      rw [totalExponent] at h
      omega
    have hbias : e + Format.binary64.exponentBias + Format.binary64.mantissaBitsWithoutImplicit =
        e + 1075 := by
      change e + 1023 + 52 = _
      omega
    change Below _ (unpack .binary64 (pack .binary64 _))
    unfold UnpackedFloat.pack
    dsimp only
    rw [hbias]
    split
    · next hinfinite =>
      change 2048 ≤ _ at hinfinite
      omega
    · split
      · exact hfield s _ _ (by omega)
      · exact hfield s 0 _ (by omega)

/-! ## Weights -/

/-- The bound on a number of the program. -/
def Small (k : Int) (x : Float) : Prop := Below k x.toModel.unpack

instance (k : Int) (x : Float) : Decidable (Small k x) :=
  inferInstanceAs (Decidable (Below k x.toModel.unpack))

namespace Small

variable {x y : Float} {k : Int} (hk : 0 ≤ k) (hlt : k < 800)
include hk hlt

theorem add (hx : Small k x) (hy : Small k y) : Small (k + 56) (x + y) :=
  (Below.repack (by omega) (by omega) (Below.add hk hx hy)).mono (by omega)

theorem sub (hx : Small k x) (hy : Small k y) : Small (k + 56) (x - y) :=
  (Below.repack (by omega) (by omega) (Below.sub hk hx hy)).mono (by omega)

theorem mul (hx : Small 60 x) (hy : Small k y) : Small (k + 115) (y * x) :=
  (Below.repack (by omega) (by omega) (Below.mul hk (by decide) hy hx)).mono (by omega)

end Small

/-- The exponent field of the fraction that a weight is computed from is that of the numbers from
    one to two. -/
theorem unpackExponent_fraction (word : UInt64) :
    (@unpackExponent .binary64 (word >>> 12 ||| 0x3ff0000000000000).toBitVec).toNat = 1023 := by
  have hhigh : word.toNat >>> 12 >>> 52 = 0 := by
    rw [← Nat.shiftRight_add]
    exact Nat.shiftRight_eq_zero _ _ word.toNat_lt
  change (BitVec.extractLsb 62 52 (word >>> 12 ||| 0x3ff0000000000000).toBitVec).toNat = _
  rw [BitVec.extractLsb_toNat]
  change (word >>> 12 ||| 0x3ff0000000000000).toNat >>> 52 % _ = _
  rw [UInt64.toNat_or, UInt64.toNat_shiftRight, Nat.shiftRight_or_distrib]
  change (word.toNat >>> 12 >>> 52 ||| _) % _ = _
  rw [hhigh]
  rfl

theorem small_fraction (word : UInt64) :
    Small 60 (Float.ofBits (word >>> 12 ||| 0x3ff0000000000000)) := by
  have hfield := unpackExponent_fraction word
  refine (Below.repack (k := 2) (by decide) (by decide) ((below_unpack ?_).mono ?_)).mono
    (by decide)
  · intro heq
    rw [heq] at hfield
    exact absurd hfield (by decide)
  · rw [hfield]
    decide

theorem isFinite_weightOf (word : UInt64) : (KeyStream.weightOf word).isFinite := by
  have hone : Small 60 (1.0 : Float) := by decide +kernel
  have hnine : Small 60 (9.0 : Float) := by decide +kernel
  have hdifference := (small_fraction word).sub (by decide) (by decide) hone
  have hproduct := Small.mul (by decide) (by decide) hnine hdifference
  have hsum := hproduct.add (by decide) (by decide) (Below.mono hone (by decide))
  exact Below.isFinite hsum

theorem isFinite_weightFuel (fuel : Nat) (s : KeyStream) :
    (KeyStream.weightFuel fuel s).1.isFinite := by
  induction fuel generalizing s with
  | zero => exact isFinite_weightOf _
  | succ fuel ih =>
    unfold KeyStream.weightFuel
    dsimp only
    split
    · exact isFinite_weightOf _
    · exact ih _

theorem isFinite_weight (s : KeyStream) : (KeyStream.draws.weight s).1.isFinite :=
  isFinite_weightFuel _ s

end Superstep.Random
