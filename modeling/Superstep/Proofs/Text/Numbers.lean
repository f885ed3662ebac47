import Superstep.Decimal.Real
import Superstep.Decimal.Shortest
import Superstep.Proofs.Decimal.Natural
import Superstep.Text.Fields

/-!
# Numbers are fields

The text of a number is made of a few visible characters, so that it is one field of a line wherever
it is written between blanks, and never a line break.

Results: `isBlank_of_mem_digits`, for natural numbers; `isBlank_of_mem_floatDigits`, for
floating-point numbers of every kind; `readFloat?_nil`, the empty text is no number.
-/

namespace Superstep.Decimal

/-- A character of the text of a number: a digit, a point, a sign, or a letter of `inf` and
    `NaN`. -/
def IsVisible (c : Char) : Prop := c.isDigit ∨ c ∈ ['.', '-', 'N', 'a', 'i', 'n', 'f']

instance (c : Char) : Decidable (IsVisible c) := inferInstanceAs (Decidable (_ ∨ _))

theorem IsVisible.not_blank {c : Char} (h : IsVisible c) : Text.isBlank c = false := by
  rcases h with hdigit | hmem
  · have hrange : 48 ≤ c.toNat ∧ c.toNat ≤ 57 := by
      simpa [Char.isDigit, UInt32.le_iff_toNat_le] using hdigit
    simp only [Text.isBlank, Text.blankRanges, List.any_cons, List.any_nil, Bool.or_false,
      Bool.or_eq_false_iff, Bool.and_eq_false_iff, decide_eq_false_iff_not]
    omega
  · have hall : ['.', '-', 'N', 'a', 'i', 'n', 'f'].all fun c => !Text.isBlank c := by decide
    simpa using List.all_eq_true.1 hall c hmem

theorem isBlank_of_mem_digits {n : Nat} {c : Char} (h : c ∈ digits n) : Text.isBlank c = false :=
  IsVisible.not_blank (.inl (isDigit_of_mem_digits h))

/-! ## Floating-point numbers -/

theorem isVisible_of_all {cs : List Char} (h : cs.all fun c => IsVisible c) {c : Char}
    (hc : c ∈ cs) : IsVisible c := by
  simpa using List.all_eq_true.1 h c hc

theorem isVisible_of_mem_stripZeros {n : Nat} {c : Char} (h : c ∈ (stripZeros (digits n)).1) :
    IsVisible c := by
  refine .inl (isDigit_of_mem_digits (n := n) ?_)
  have hsub := List.dropWhile_sublist (fun c => c == '0') (l := (digits n).reverse)
  exact List.mem_reverse.1 (hsub.subset (List.mem_reverse.1 h))

theorem isVisible_of_mem_zeroParts {n : Nat} {c : Char} (h : c ∈ (zeroParts n).flatten) :
    IsVisible c := by
  rw [flatten_zeroParts, List.mem_replicate] at h
  obtain ⟨-, rfl⟩ := h
  exact .inl (by decide)

/-- The characters of the positional text of a number are visible. -/
theorem isVisible_of_mem_positional {n : Nat} {k : Int} {c : Char} (h : c ∈ positional n k) :
    IsVisible c := by
  unfold positional positionalParts at h
  have hds := fun {c : Char} => isVisible_of_mem_stripZeros (n := n) (c := c)
  generalize stripZeros (digits n) = s at h hds
  obtain ⟨ds, zeros⟩ := s
  dsimp only at h hds
  split at h
  · rw [List.flatten_cons, List.mem_append] at h
    exact h.elim hds isVisible_of_mem_zeroParts
  · split at h
    · simp only [List.flatten_cons, List.flatten_nil, List.append_nil, List.mem_append,
        List.mem_singleton] at h
      rcases h with h | rfl | h
      · exact hds (List.mem_of_mem_take h)
      · decide
      · exact hds (List.mem_of_mem_drop h)
    · simp only [List.cons_append, List.flatten_cons, List.flatten_append, List.flatten_nil,
        List.append_nil, List.nil_append, List.mem_cons, List.mem_append] at h
      rcases h with rfl | rfl | h | h
      · decide
      · decide
      · exact isVisible_of_mem_zeroParts h
      · exact hds h

/-- The characters of the text of a floating-point number are visible. -/
theorem isVisible_of_mem_floatDigits {x : Float} {c : Char} (h : c ∈ floatDigits x) :
    IsVisible c := by
  have hsign : (if x.toBits >>> 63 = 0 then [] else [['-']] : List (List Char)).flatten.all
      fun c => IsVisible c := by
    split <;> decide
  unfold floatDigits floatParts at h
  dsimp only at h
  split at h
  · exact isVisible_of_all (by decide) h
  · split at h
    · rw [List.flatten_append, List.mem_append] at h
      exact h.elim (isVisible_of_all hsign) (isVisible_of_all (by decide))
    · split at h
      · rw [List.flatten_append, List.mem_append] at h
        exact h.elim (isVisible_of_all hsign) (isVisible_of_all (by decide))
      · rw [List.flatten_append, List.mem_append] at h
        exact h.elim (isVisible_of_all hsign) isVisible_of_mem_positional

theorem isBlank_of_mem_floatDigits {x : Float} {c : Char} (h : c ∈ floatDigits x) :
    Text.isBlank c = false :=
  (isVisible_of_mem_floatDigits h).not_blank

theorem readFloat?_nil : readFloat? [] = none := rfl

end Superstep.Decimal
