import Superstep.Proofs.Storage.Word

/-!
# Bitsets as sets of numbers

A `Bitset` is read through `Has`, the numbers whose bit is set. `Sized` is what every bitset of a
run keeps: it has the words that its size needs, and no bit at or after its size is set.

Results:
* `has_insert`, `has_fill`, `has_clear`: what the operations do to the set.
* `count_eq_card`: the number of members.
* `members?_eq`: the walk through a range finds exactly its members, in ascending order.
-/

namespace Superstep.Bitset

/-- Whether the bit of `i` is set. -/
def Has (s : Bitset) (i : Nat) : Prop := s.contains? i = some true

instance (s : Bitset) (i : Nat) : Decidable (s.Has i) :=
  inferInstanceAs (Decidable (s.contains? i = some true))

/-- A set of numbers below `n` in as many words as these need. -/
structure Sized (s : Bitset) (n : Nat) : Prop where
  size_eq : s.size = n
  words_eq : s.words.size = wordCount n
  lt_of_has : ∀ i, s.Has i → i < n

/-! ## Single bits -/

theorem has_iff {s : Bitset} {i : Nat} :
    s.Has i ↔ ∃ w, s.words[i / wordBits]? = some w ∧ testBit w (i % wordBits) = true := by
  unfold Has contains?
  rw [Option.map_eq_some_iff]

theorem mod_wordBits_lt (i : Nat) : i % wordBits < wordBits := Nat.mod_lt _ (by decide)

theorem div_lt_wordCount {i n : Nat} (h : i < n) : i / wordBits < wordCount n := by
  unfold wordCount wordBits
  omega

namespace Sized

variable {s : Bitset} {n : Nat}

theorem exists_word (hs : s.Sized n) {i : Nat} (hi : i < n) :
    ∃ w, s.words[i / wordBits]? = some w := by
  have hlt : i / wordBits < s.words.size := by
    rw [hs.words_eq]
    exact div_lt_wordCount hi
  exact ⟨_, Array.getElem?_eq_getElem hlt⟩

theorem contains?_eq (hs : s.Sized n) {i : Nat} (hi : i < n) :
    s.contains? i = some (decide (s.Has i)) := by
  obtain ⟨w, hw⟩ := hs.exists_word hi
  have h : s.contains? i = some (testBit w (i % wordBits)) := by
    unfold contains?
    rw [hw]
    rfl
  rw [h]
  congr 1
  simp [Has, h]

end Sized

/-! ## Operations -/

theorem new_spec [Memory.Allocator] {n : Nat} {s : Bitset} (h : Bitset.new n = .ok s) :
    s.Sized n ∧ ∀ i, ¬ s.Has i := by
  unfold Bitset.new at h
  cases hr : Memory.reserve (wordCount n) Memory.wordBytes with
  | error e =>
    rw [hr] at h
    cases h
  | ok u =>
    rw [hr] at h
    cases h
    have hno : ∀ i, ¬ Has ⟨Array.replicate (wordCount n) 0, n⟩ i := by
      intro i hi
      obtain ⟨w, hw, hbit⟩ := has_iff.1 hi
      obtain ⟨hlt, hzero⟩ := Array.getElem?_eq_some_iff.1 hw
      rw [Array.getElem_replicate] at hzero
      rw [← hzero, testBit_zero] at hbit
      cases hbit
    exact ⟨⟨rfl, Array.size_replicate, fun i hi => absurd hi (hno i)⟩, hno⟩

theorem size_le_of_new [Memory.Allocator] {n : Nat} {s : Bitset} (h : Bitset.new n = .ok s) :
    wordCount n * Memory.wordBytes ≤ Memory.addressSpace := by
  unfold Bitset.new at h
  cases hr : Memory.reserve (wordCount n) Memory.wordBytes with
  | error e =>
    rw [hr] at h
    cases h
  | ok u => exact Memory.le_addressSpace_of_fits (Memory.reserve_eq_ok_iff.1 hr)

theorem has_insert {s : Bitset} {n i : Nat} (hs : s.Sized n) (hi : i < n) (j : Nat) :
    (s.insert i).Has j ↔ j = i ∨ s.Has j := by
  obtain ⟨w, hw⟩ := hs.exists_word hi
  rw [has_iff, has_iff]
  simp only [insert, Array.getElem?_modify]
  by_cases hword : i / wordBits = j / wordBits
  · rw [if_pos hword, ← hword, hw]
    simp only [Option.map_some, Option.some.injEq, exists_eq_left']
    rw [testBit_or (mod_wordBits_lt j), testBit_bit (mod_wordBits_lt j) (mod_wordBits_lt i)]
    simp only [Bool.or_eq_true, decide_eq_true_eq]
    unfold wordBits at *
    constructor
    · rintro (h | h)
      · exact .inr h
      · exact .inl (by omega)
    · rintro (rfl | h)
      · exact .inr rfl
      · exact .inl h
  · rw [if_neg hword]
    constructor
    · exact .inr
    · rintro (rfl | h)
      · exact absurd rfl hword
      · exact h

theorem Sized.insert {s : Bitset} {n i : Nat} (hs : s.Sized n) (hi : i < n) :
    (s.insert i).Sized n := by
  refine ⟨hs.size_eq, by simpa [Bitset.insert] using hs.words_eq, ?_⟩
  intro j hj
  rcases (has_insert hs hi j).1 hj with rfl | h
  · exact hi
  · exact hs.lt_of_has j h

theorem has_fill {s : Bitset} {n : Nat} (hs : s.Sized n) (j : Nat) : s.fill.Has j ↔ j < n := by
  rw [has_iff]
  simp only [fill, Array.getElem?_mapIdx, hs.size_eq]
  constructor
  · rintro ⟨w, hw, hbit⟩
    obtain ⟨v, -, rfl⟩ := Option.map_eq_some_iff.1 hw
    rw [testBit_rangeMask (mod_wordBits_lt j), decide_eq_true_eq] at hbit
    have := Nat.div_add_mod' j wordBits
    omega
  · intro hj
    obtain ⟨w, hw⟩ := hs.exists_word hj
    refine ⟨_, by rw [hw]; rfl, ?_⟩
    rw [testBit_rangeMask (mod_wordBits_lt j), decide_eq_true_eq]
    have := Nat.div_add_mod' j wordBits
    omega

theorem Sized.fill {s : Bitset} {n : Nat} (hs : s.Sized n) : s.fill.Sized n :=
  ⟨hs.size_eq, by simpa [Bitset.fill] using hs.words_eq, fun j hj => (has_fill hs j).1 hj⟩

/-- Clearing words leaves the others alone, and takes the mask of the range out of each. -/
theorem getElem?_clearWords (start stop count word : Nat) (words : Array UInt64) (i : Nat) :
    (clearWords start stop count word words).1[i]? =
      words[i]?.map fun w =>
        if word ≤ i ∧ i < word + count then w &&& ~~~rangeMask i start stop else w := by
  induction count generalizing word words with
  | zero =>
    have hno : ¬ (word ≤ i ∧ i < word) := by omega
    simp [clearWords, hno]
  | succ count ih =>
    unfold clearWords
    split
    · rw [ih, Array.getElem?_modify]
      by_cases hi : word = i
      · subst hi
        rw [if_pos rfl, Option.map_map]
        congr 1
        funext w
        simp
      · rw [if_neg hi]
        have hiff : (word + 1 ≤ i ∧ i < word + 1 + count) ↔
            (word ≤ i ∧ i < word + (count + 1)) := by omega
        simp only [hiff]
    · next hout =>
      by_cases hi : i < words.size
      · have hno : ¬ (word ≤ i ∧ i < word + (count + 1)) := by omega
        simp [hno]
      · have hnone : words[i]? = none := Array.getElem?_eq_none (by omega)
        rw [hnone]
        rfl

theorem size_clearWords (start stop count word : Nat) (words : Array UInt64) :
    (clearWords start stop count word words).1.size = words.size := by
  induction count generalizing word words with
  | zero => rfl
  | succ count ih =>
    unfold clearWords
    split
    · rw [ih, Array.size_modify]
    · rfl

/-- Clearing words of a range removes its members in these words and no others. -/
theorem has_clearWords (s : Bitset) (start stop count word j : Nat) :
    Has { s with words := (clearWords start stop count word s.words).1 } j ↔
      s.Has j ∧ ¬ (word ≤ j / wordBits ∧ j / wordBits < word + count ∧ start ≤ j ∧ j < stop) := by
  have hj := Nat.div_add_mod' j wordBits
  have hmod := mod_wordBits_lt j
  rw [has_iff, has_iff]
  simp only [getElem?_clearWords]
  constructor
  · rintro ⟨v, hv, hbit⟩
    obtain ⟨w, hw, rfl⟩ := Option.map_eq_some_iff.1 hv
    split_ifs at hbit with hin
    · rw [testBit_and hmod, testBit_not hmod, testBit_rangeMask hmod] at hbit
      simp only [Bool.and_eq_true, Bool.not_eq_true', decide_eq_false_iff_not, hj] at hbit
      exact ⟨⟨w, hw, hbit.1⟩, fun hrange => hbit.2 hrange.2.2⟩
    · exact ⟨⟨w, hw, hbit⟩, fun hrange => hin ⟨hrange.1, hrange.2.1⟩⟩
  · rintro ⟨⟨w, hw, hbit⟩, hout⟩
    refine ⟨_, by rw [hw]; rfl, ?_⟩
    split_ifs with hin
    · rw [testBit_and hmod, testBit_not hmod, testBit_rangeMask hmod, hj, hbit]
      simp only [Bool.true_and, Bool.not_eq_true', decide_eq_false_iff_not]
      exact fun hrange => hout ⟨hin.1, hin.2, hrange⟩
    · exact hbit

/-- Clearing a range removes its members and no others. -/
theorem has_clear (s : Bitset) (start stop j : Nat) :
    (s.clear start stop).1.Has j ↔ s.Has j ∧ ¬ (start ≤ j ∧ j < stop) := by
  unfold clear
  split
  · next h =>
    have hno : ¬ (start ≤ j ∧ j < stop) := by omega
    simp [hno]
  · next h =>
    -- The words that are cleared are those of the range.
    have hwords : start ≤ j ∧ j < stop → start / wordBits ≤ j / wordBits ∧
        j / wordBits < start / wordBits + ((stop - 1) / wordBits + 1 - start / wordBits) := by
      rintro ⟨hstart, hstop⟩
      have h1 : start / wordBits ≤ j / wordBits := Nat.div_le_div_right hstart
      have h2 : j / wordBits ≤ (stop - 1) / wordBits := Nat.div_le_div_right (by omega)
      omega
    refine (has_clearWords s start stop _ _ j).trans (and_congr_right fun _ => not_congr ?_)
    exact ⟨fun hin => hin.2.2, fun hin => ⟨(hwords hin).1, (hwords hin).2, hin⟩⟩

theorem Sized.clear {s : Bitset} {n : Nat} (hs : s.Sized n) (start stop : Nat) :
    (s.clear start stop).1.Sized n := by
  refine ⟨by rw [size_clear, hs.size_eq], ?_, fun j hj =>
    hs.lt_of_has j ((has_clear s start stop j).1 hj).1⟩
  rw [← hs.words_eq]
  unfold Bitset.clear
  split
  · rfl
  · exact size_clearWords _ _ _ _ _

/-! ## The number of members -/

theorem count_word {s : Bitset} {k : Nat} {w : UInt64} (hw : s.words[k]? = some w) :
    Nat.count (fun i => s.Has (k * wordBits + i)) wordBits = bitCount w := by
  rw [bitCount_eq, Nat.count_eq_card_filter_range]
  congr 1
  apply Finset.filter_congr
  intro i hi
  rw [Finset.mem_range] at hi
  have hdiv : (k * wordBits + i) / wordBits = k := by
    unfold wordBits at *
    omega
  have hmod : (k * wordBits + i) % wordBits = i := by
    unfold wordBits at *
    omega
  rw [has_iff, hdiv, hmod, hw]
  simp

theorem foldl_bitCount_eq (s : Bitset) (k : Nat) (hk : k ≤ s.words.size) :
    (s.words.toList.take k).foldl (fun n w => n + bitCount w) 0 =
      Nat.count s.Has (k * wordBits) := by
  induction k with
  | zero => simp
  | succ k ih =>
    have hlt : k < s.words.toList.length := by simpa using hk
    have hw : s.words[k]? = some s.words[k] := Array.getElem?_eq_getElem hk
    rw [List.take_add_one, List.getElem?_eq_getElem hlt, List.foldl_append, ih (by omega),
      Nat.add_mul, one_mul, Nat.count_add, count_word hw]
    rfl

theorem count_eq_card {s : Bitset} {n : Nat} (hs : s.Sized n) :
    s.count = ((Finset.range n).filter s.Has).card := by
  have h := foldl_bitCount_eq s s.words.size le_rfl
  rw [List.take_of_length_le (by simp)] at h
  rw [count, ← Array.foldl_toList, h, Nat.count_eq_card_filter_range]
  congr 1
  ext i
  simp only [Finset.mem_filter, Finset.mem_range, and_congr_left_iff]
  intro hi
  have hin := hs.lt_of_has i hi
  have hwords := hs.words_eq
  refine ⟨fun _ => hin, ?_⟩
  intro _
  rw [hwords]
  unfold wordCount wordBits
  omega

/-! ## The walk through a range -/

/-- Where a walk stands: its pending members are those from `p` on in its word. -/
structure SetBits.At (s : Bitset) (w : SetBits) (p : Nat) : Prop where
  start_le : w.start ≤ p
  le_pos : w.word * wordBits ≤ p
  pos_le : p ≤ (w.word + 1) * wordBits
  no_wrap : (w.word + 1) * wordBits < wordLimit
  pending : ∀ i < wordBits, testBit w.pending i =
    decide (p ≤ w.word * wordBits + i ∧ w.word * wordBits + i < w.stop ∧
      s.Has (w.word * wordBits + i))

/-- What a walk finds next: the first member from `p` on, or none. -/
def Found.Is (s : Bitset) (stop p : Nat) : Found → Prop
  | .member i rest =>
    p ≤ i ∧ i < stop ∧ s.Has i ∧ (∀ j, p ≤ j → j < i → ¬ s.Has j) ∧ rest.stop = stop ∧
      rest.At s (i + 1)
  | .finished _ => ∀ j, p ≤ j → j < stop → ¬ s.Has j
  | .outOfBounds => False

/-- Finding a member that is pending. -/
theorem SetBits.At.found_pending {s : Bitset} {w : SetBits} {p : Nat} (h : w.At s p)
    (hne : w.pending ≠ 0) :
    Found.Is s w.stop p (.member (w.word * wordBits + lowestBit w.pending)
      { w with pending := dropLowestBit w.pending }) := by
  obtain ⟨hlt, hset, hbelow⟩ := lowestBit_spec hne
  have hmem := h.pending _ hlt
  rw [hset] at hmem
  obtain ⟨h1, h2, h3⟩ := of_decide_eq_true hmem.symm
  refine ⟨h1, h2, h3, ?_, rfl, ?_⟩
  · intro j hj hlow hhas
    have hp := h.le_pos
    have hj' := hbelow (j - w.word * wordBits) (by omega)
    rw [h.pending _ (by omega), decide_eq_false_iff_not,
      show w.word * wordBits + (j - w.word * wordBits) = j by omega] at hj'
    exact hj' ⟨hj, by omega, hhas⟩
  · refine ⟨?_, ?_, ?_, h.no_wrap, ?_⟩
    · have := h.start_le
      simp only
      omega
    · simp only
      omega
    · simp only [Nat.add_mul, one_mul]
      omega
    · intro i hi
      rw [testBit_dropLowestBit hne hi, h.pending i hi, ← Bool.decide_and]
      congr 1
      apply propext
      simp only
      constructor
      · rintro ⟨⟨h4, h5, h6⟩, h7⟩
        refine ⟨?_, h5, h6⟩
        by_contra hcon
        have hi' := hbelow i (by omega)
        rw [h.pending i hi, decide_eq_false_iff_not] at hi'
        exact hi' ⟨h4, h5, h6⟩
      · rintro ⟨h4, h5, h6⟩
        exact ⟨⟨by omega, h5, h6⟩, by omega⟩

theorem SetBits.At.none_in_word {s : Bitset} {w : SetBits} {p : Nat} (h : w.At s p)
    (hzero : w.pending = 0) {j : Nat} (hj : p ≤ j) (hstop : j < w.stop)
    (hword : j < (w.word + 1) * wordBits) : ¬ s.Has j := by
  intro hhas
  have hp := h.le_pos
  rw [Nat.add_mul, one_mul] at hword
  have hbit := h.pending (j - w.word * wordBits) (by omega)
  rw [hzero, testBit_zero, show w.word * wordBits + (j - w.word * wordBits) = j by omega] at hbit
  exact of_decide_eq_false hbit.symm ⟨hj, hstop, hhas⟩

/-- Moving on to the next word. -/
theorem SetBits.At.advance {s : Bitset} {n : Nat} (hs : s.words.size = wordCount n) {w : SetBits}
    {p : Nat} (h : w.At s p) (hn : n + wordBits < wordLimit) (hword : w.word + 1 < s.words.size) :
    SetBits.At s { w with
      word := w.word + 1
      pending := s.words[w.word + 1] &&& rangeMask (w.word + 1) w.start w.stop }
      ((w.word + 1) * wordBits) := by
  refine ⟨h.start_le.trans h.pos_le, le_rfl, Nat.mul_le_mul_right _ (Nat.le_succ _), ?_, ?_⟩
  · rw [hs] at hword
    show (w.word + 1 + 1) * wordBits < wordLimit
    unfold wordCount at hword
    unfold wordBits at *
    omega
  · intro i hi
    have hstart := h.start_le.trans h.pos_le
    have hdiv : ((w.word + 1) * wordBits + i) / wordBits = w.word + 1 := by
      unfold wordBits at *
      omega
    have hmod : ((w.word + 1) * wordBits + i) % wordBits = i := by
      unfold wordBits at *
      omega
    have hhas : s.Has ((w.word + 1) * wordBits + i) ↔ testBit s.words[w.word + 1] i = true := by
      rw [has_iff, hdiv, hmod, Array.getElem?_eq_getElem hword]
      simp
    simp only
    rw [testBit_and hi, testBit_rangeMask hi, Bool.eq_iff_iff]
    simp only [Bool.and_eq_true, decide_eq_true_eq, hhas]
    constructor
    · rintro ⟨h1, h2, h3⟩
      exact ⟨by omega, h3, h1⟩
    · rintro ⟨h1, h2, h3⟩
      exact ⟨h3, by omega, h2⟩

/-- The next step of a walk finds the first member that is left. -/
theorem next_spec {s : Bitset} {n : Nat} (hs : s.words.size = wordCount n)
    (hn : n + wordBits < wordLimit) (w : SetBits) (p : Nat) (hstop : w.stop ≤ n) (h : w.At s p) :
    Found.Is s w.stop p (s.next w) := by
  fun_induction s.next w generalizing p with
  | case1 w hne => exact h.found_pending hne
  | case2 w hzero word hwrap => exact absurd h.no_wrap (Nat.not_lt.2 hwrap)
  | case3 w hzero word _ hend =>
    have hend : w.stop ≤ (w.word + 1) * wordBits := hend
    intro j hj hlt
    exact h.none_in_word (not_not.1 hzero) hj hlt (by omega)
  | case4 w hzero word _ hend hword ih =>
    have hih := ih _ hstop (h.advance hs hn hword)
    have hskip : ∀ j, p ≤ j → j < w.stop → j < (w.word + 1) * wordBits → ¬ s.Has j :=
      fun j hj hlt hin => h.none_in_word (not_not.1 hzero) hj hlt hin
    generalize s.next _ = found at hih ⊢
    cases found with
    | member i rest =>
      obtain ⟨h1, h2, h3, h4, h5⟩ := hih
      refine ⟨h.pos_le.trans h1, h2, h3, ?_, h5⟩
      intro j hj hlt
      by_cases hin : j < (w.word + 1) * wordBits
      · exact hskip j hj (hlt.trans h2) hin
      · exact h4 j (by omega) hlt
    | finished rest =>
      intro j hj hlt
      by_cases hin : j < (w.word + 1) * wordBits
      · exact hskip j hj hlt hin
      · exact hih j (by omega) hlt
    | outOfBounds => exact hih.elim
  | case5 w hzero word _ hend hword =>
    have hend : ¬ w.stop ≤ (w.word + 1) * wordBits := hend
    apply hword
    rw [hs]
    have hlt : (w.word + 1) * wordBits < n := by omega
    simpa [wordBits] using div_lt_wordCount hlt

theorem filter_range'_found {s : Bitset} {p i stop : Nat} (hp : p ≤ i) (hi : i < stop)
    (hhas : s.Has i) (hno : ∀ j, p ≤ j → j < i → ¬ s.Has j) :
    (List.range' p (stop - p)).filter (fun j => decide (s.Has j)) =
      i :: (List.range' (i + 1) (stop - (i + 1))).filter fun j => decide (s.Has j) := by
  have hsplit : List.range' p (stop - p) =
      List.range' p (i - p) ++ i :: List.range' (i + 1) (stop - (i + 1)) := by
    rw [show stop - p = (i - p) + ((stop - (i + 1)) + 1) by omega, ← List.range'_append_1,
      List.range'_succ, show p + (i - p) = i by omega]
  rw [hsplit, List.filter_append, List.filter_cons_of_pos (by simpa using hhas)]
  rw [List.filter_eq_nil_iff.2, List.nil_append]
  intro j hj
  rw [List.mem_range'_1] at hj
  simpa using hno j hj.1 (by omega)

theorem filter_range'_finished {s : Bitset} {p stop : Nat}
    (hno : ∀ j, p ≤ j → j < stop → ¬ s.Has j) :
    (List.range' p (stop - p)).filter (fun j => decide (s.Has j)) = [] := by
  rw [List.filter_eq_nil_iff]
  intro j hj
  rw [List.mem_range'_1] at hj
  simpa using hno j hj.1 (by omega)

/-- With enough fuel a walk collects all members that are left. -/
theorem collect_spec {s : Bitset} {n : Nat} (hs : s.words.size = wordCount n)
    (hn : n + wordBits < wordLimit) (fuel : Nat) (found : Array Nat) (w : SetBits) (p : Nat)
    (hstop : w.stop ≤ n) (h : w.At s p) (hfuel : w.stop - p < fuel) :
    s.collect found fuel w = some (found ++
      ((List.range' p (w.stop - p)).filter fun j => decide (s.Has j)).toArray) := by
  induction fuel generalizing found w p with
  | zero => omega
  | succ fuel ih =>
    unfold collect
    have hnext := next_spec hs hn w p hstop h
    split
    · next i rest heq =>
      rw [heq] at hnext
      obtain ⟨h1, h2, h3, h4, h5, h6⟩ := hnext
      rw [ih _ rest (i + 1) (by omega) h6 (by omega), h5, filter_range'_found h1 h2 h3 h4]
      simp
    · next rest heq =>
      rw [heq] at hnext
      rw [filter_range'_finished hnext]
      simp
    · next heq =>
      rw [heq] at hnext
      exact hnext.elim

/-- A walk through a range stands at its start, wherever that is, if the next word does not wrap. -/
theorem at_walk_of_no_wrap {s : Bitset} (hs : s.words.size = wordCount s.size) {start stop : Nat}
    (hwrap : (start / wordBits + 1) * wordBits < wordLimit) : (s.walk start stop).At s start := by
  have hdiv := Nat.div_add_mod' start wordBits
  have hmod := mod_wordBits_lt start
  refine ⟨le_rfl, ?_, ?_, hwrap, ?_⟩
  · show start / wordBits * wordBits ≤ start
    omega
  · show start ≤ (start / wordBits + 1) * wordBits
    rw [Nat.add_mul, one_mul]
    omega
  · intro i hi
    show testBit (if start < min stop s.size then _ else 0) i = decide (start ≤ _ ∧ _ < _ ∧ _)
    have hword : (start / wordBits * wordBits + i) / wordBits = start / wordBits := by
      unfold wordBits at *
      omega
    have hbit : (start / wordBits * wordBits + i) % wordBits = i := by
      unfold wordBits at *
      omega
    show _ = decide (start ≤ start / wordBits * wordBits + i ∧
      start / wordBits * wordBits + i < min stop s.size ∧
        s.Has (start / wordBits * wordBits + i))
    split_ifs with hlt
    · obtain ⟨w, hw⟩ : ∃ w, s.words[start / wordBits]? = some w :=
        ⟨_, Array.getElem?_eq_getElem (hs ▸ div_lt_wordCount (by omega))⟩
      have hhas : s.Has (start / wordBits * wordBits + i) ↔ testBit w i = true := by
        rw [has_iff, hword, hbit, hw]
        simp
      rw [Array.getD_eq_getD_getElem?, hw, Option.getD_some, testBit_and hi, testBit_rangeMask hi,
        Bool.eq_iff_iff]
      simp only [Bool.and_eq_true, decide_eq_true_eq, hhas]
      tauto
    · rw [testBit_zero]
      symm
      rw [decide_eq_false_iff_not]
      omega

theorem at_walk {s : Bitset} {n : Nat} (hs : s.Sized n) (hn : n + wordBits < wordLimit)
    {start stop : Nat} (hstart : start ≤ n) : (s.walk start stop).At s start := by
  refine at_walk_of_no_wrap (by rw [hs.words_eq, hs.size_eq]) ?_
  have := Nat.div_mul_le_self start wordBits
  rw [Nat.add_mul, one_mul]
  omega

/-- The walk through a range finds exactly its members, in ascending order. -/
theorem members?_eq {s : Bitset} {n : Nat} (hs : s.Sized n) (hn : n + wordBits < wordLimit)
    {start stop : Nat} (hstart : start ≤ n) (hstop : stop ≤ n) :
    s.members? start stop =
      some ((List.range' start (stop - start)).filter fun j => decide (s.Has j)) := by
  have hend : (s.walk start stop).stop = stop := by
    show min stop s.size = stop
    rw [hs.size_eq]
    omega
  have hfuel : stop - start < s.words.size * wordBits + 1 := by
    rw [hs.words_eq]
    unfold wordCount wordBits
    omega
  rw [members?, collect_spec hs.words_eq hn _ _ _ start (by omega) (at_walk hs hn hstart)
    (by omega), hend]
  simp

end Superstep.Bitset
