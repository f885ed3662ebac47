import Mathlib.Data.Nat.Digits.Defs
import Superstep.Decimal.Natural

/-!
# What the reader of natural numbers accepts

`Denotes cs n` is the grammar of a natural number, as a property of a text and its value: at least
one ASCII digit, perhaps with a plus sign before them. The reader looks at one digit at a time and
compares with its bound after each of them; since a number never shrinks when a digit is read, that
is the same as comparing once at the end.

Results: `readNat_eq_ok_iff`, what is read is exactly the numbers below the bound in this grammar;
`readUInt64_eq_ok_iff`, the same for 64-bit words.
-/

namespace Superstep.Decimal

/-- The text `cs` is a decimal number of value `n`. -/
def Denotes (cs : List Char) (n : Nat) : Prop :=
  ∃ ds, (cs = ds ∨ cs = '+' :: ds) ∧ ds ≠ [] ∧ (∀ d ∈ ds, d.isDigit) ∧
    Nat.ofDigitChars 10 ds 0 = n

/-! ## Digits -/

theorem digitValue?_of_isDigit {c : Char} (h : c.isDigit) :
    digitValue? c = some (c.toNat - '0'.toNat) := by
  simp [digitValue?, h]

theorem digitValue?_of_not_isDigit {c : Char} (h : ¬ c.isDigit) : digitValue? c = none := by
  simp [digitValue?, h]

theorem ofDigitChars_cons (c : Char) (cs : List Char) (value : Nat) :
    Nat.ofDigitChars 10 (c :: cs) value =
      Nat.ofDigitChars 10 cs (value * 10 + (c.toNat - '0'.toNat)) := by
  simp [Nat.ofDigitChars, Nat.mul_comm]

theorem le_ofDigitChars (cs : List Char) (value : Nat) : value ≤ Nat.ofDigitChars 10 cs value := by
  induction cs generalizing value with
  | nil => exact Nat.le_refl _
  | cons c cs ih =>
    rw [ofDigitChars_cons]
    exact Nat.le_trans (by omega) (ih _)

/-- Digits are read if there are only digits, and their number is below the bound. -/
theorem readDigits_eq_ok_iff {bound value n : Nat} {cs : List Char} (hv : value < bound) :
    readDigits bound value cs = .ok n ↔
      (∀ c ∈ cs, c.isDigit) ∧ Nat.ofDigitChars 10 cs value = n ∧ n < bound := by
  induction cs generalizing value with
  | nil =>
    simp only [readDigits, Except.ok.injEq, List.not_mem_nil, false_implies, implies_true, true_and,
      Nat.ofDigitChars, List.foldl_nil]
    constructor
    · rintro rfl
      exact ⟨rfl, hv⟩
    · exact And.left
  | cons c cs ih =>
    unfold readDigits
    by_cases hc : c.isDigit
    · rw [digitValue?_of_isDigit hc, ofDigitChars_cons]
      dsimp only
      split
      · next hlt => rw [ih hlt, List.forall_mem_cons, and_iff_right hc]
      · next hge =>
        -- the number is past the bound already, and reading on does not bring it back
        have := le_ofDigitChars cs (value * 10 + (c.toNat - '0'.toNat))
        simp only [reduceCtorEq, List.forall_mem_cons, hc, true_and, false_iff, not_and]
        omega
    · simp [digitValue?_of_not_isDigit hc, hc]

/-! ## Numbers -/

theorem denotes_digits (n : Nat) : Denotes (digits n) n :=
  ⟨digits n, .inl rfl, Nat.toDigits_ne_nil,
    fun _ hd => Nat.isDigit_of_mem_toDigits (by decide) (by decide) hd,
    Nat.ofDigitChars_toDigits (by decide) (by decide)⟩

theorem denotes_cons_iff {c : Char} {cs : List Char} {n : Nat} (hc : c ≠ '+') :
    Denotes (c :: cs) n ↔
      (∀ d ∈ c :: cs, d.isDigit) ∧ Nat.ofDigitChars 10 (c :: cs) 0 = n := by
  constructor
  · rintro ⟨ds, rfl | h, -, hds, hn⟩
    · exact ⟨hds, hn⟩
    · exact absurd (List.cons.inj h).1 hc
  · rintro ⟨hds, hn⟩
    exact ⟨_, .inl rfl, List.cons_ne_nil _ _, hds, hn⟩

theorem not_isDigit_plus : ¬ ('+').isDigit := by decide

theorem denotes_plus_iff {cs : List Char} {n : Nat} :
    Denotes ('+' :: cs) n ↔
      cs ≠ [] ∧ (∀ d ∈ cs, d.isDigit) ∧ Nat.ofDigitChars 10 cs 0 = n := by
  constructor
  · rintro ⟨ds, rfl | h, hne, hds, hn⟩
    · exact absurd (hds '+' List.mem_cons_self) not_isDigit_plus
    · obtain rfl := (List.cons.inj h).2
      exact ⟨hne, hds, hn⟩
  · rintro ⟨hne, hds, hn⟩
    exact ⟨cs, .inr rfl, hne, hds, hn⟩

/-- What is read is exactly the decimal numbers below the bound. -/
theorem readNat_eq_ok_iff {bound n : Nat} {cs : List Char} (hb : 0 < bound) :
    readNat bound cs = .ok n ↔ Denotes cs n ∧ n < bound := by
  fun_cases readNat bound cs with
  | case1 =>
    have hnot : ¬ Denotes [] n := by
      rintro ⟨ds, h | h, hne, -⟩
      · exact hne h.symm
      · exact absurd h (by simp)
    simp [hnot]
  | case2 => simp [denotes_plus_iff]
  | case3 c cs => simp [readDigits_eq_ok_iff hb, denotes_plus_iff, and_assoc]
  | case4 c cs hlone hplus =>
    have hc : c ≠ '+' := by
      rintro rfl
      cases cs with
      | nil => exact hlone rfl rfl
      | cons d ds => exact hplus d ds rfl rfl
    rw [readDigits_eq_ok_iff hb, denotes_cons_iff hc, and_assoc]

/-- What is read as a 64-bit word is exactly the decimal numbers below `2 ^ 64`. -/
theorem readUInt64_eq_ok_iff {cs : List Char} {n : UInt64} :
    readUInt64 cs = .ok n ↔ Denotes cs n.toNat := by
  have hb : 0 < wordLimit := by decide
  constructor
  · intro h
    unfold readUInt64 at h
    cases hread : readNat wordLimit cs with
    | error fault => simp [hread, Except.map] at h
    | ok m =>
      obtain ⟨hden, hlt⟩ := (readNat_eq_ok_iff hb).1 hread
      obtain rfl : m.toUInt64 = n := by simpa [hread, Except.map] using h
      rwa [toNat_toUInt64 hlt]
  · intro h
    simp [readUInt64, (readNat_eq_ok_iff hb).2 ⟨h, toNat_lt_wordLimit n⟩, Except.map]

theorem isDigit_of_mem_digits {n : Nat} {c : Char} (h : c ∈ digits n) : c.isDigit :=
  Nat.isDigit_of_mem_toDigits (by decide) (by decide) h

end Superstep.Decimal
