import Superstep.Proofs.Storage.Bitset

/-!
# Walking and clearing word by word

Several workers read and clear the same bitset, and what is indivisible for them is one word. A walk
loads a word, finds its members one after the other without looking at the word again, and loads
the next one; a range is cleared one word at a time. Here both are cut into such moves.

Results:
* `next_eq_move`: the next step of a walk goes on until it has found something.
* `move_spec`: what one move of a walk finds.
* `clearWords_succ`: clearing several words is clearing them one after the other.
* `has_clearWord?`: what clearing one word does to the set.
-/

namespace Superstep.Bitset

/-! ## Moves of a walk -/

/-- What one move of a walk comes to. -/
inductive Move where
  | member (i : Nat) (rest : SetBits)
  /-- The next word has been loaded. -/
  | word (rest : SetBits)
  | finished (rest : SetBits)
  /-- The next word has no position, or there is no such word. -/
  | outOfBounds

/-- One move of a walk: it finds its lowest pending member, or else it loads the next word. -/
def move (s : Bitset) (w : SetBits) : Move :=
  if w.pending ≠ 0 then
    .member (w.word * wordBits + lowestBit w.pending)
      { w with pending := dropLowestBit w.pending }
  else
    let word := w.word + 1
    if word * wordBits ≥ wordLimit then .outOfBounds
    else if word * wordBits ≥ w.stop then .finished { w with word }
    else if _h : word < s.words.size then
      .word { w with word, pending := s.words[word] &&& rangeMask word w.start w.stop }
    else .outOfBounds

/-- The next step of a walk goes on from word to word until it has found something. -/
theorem next_eq_move (s : Bitset) (w : SetBits) : s.next w =
    match s.move w with
    | .member i rest => .member i rest
    | .word rest => s.next rest
    | .finished rest => .finished rest
    | .outOfBounds => .outOfBounds := by
  rw [next]
  unfold move
  split
  · rfl
  · simp only
    split
    · rfl
    · split
      · rfl
      · split <;> rfl

theorem SetBits.At.congr {s s' : Bitset} {w : SetBits} {p : Nat} (h : w.At s p)
    (hsame : ∀ i, p ≤ i → i < w.stop → (s.Has i ↔ s'.Has i)) : w.At s' p where
  start_le := h.start_le
  le_pos := h.le_pos
  pos_le := h.pos_le
  no_wrap := h.no_wrap
  pending := by
    intro i hi
    rw [h.pending i hi]
    congr 1
    refine propext (and_congr_right fun hp => and_congr_right fun hlt => ?_)
    exact hsame _ hp hlt

/-- What one move of a walk finds that stands at `p`: the first member from `p` on; or the walk has
    moved on to a later place, with no members in between; or no members are left. -/
def Move.Is (s : Bitset) (stop p : Nat) : Move → Prop
  | .member i rest => p ≤ i ∧ i < stop ∧ s.Has i ∧ (∀ j, p ≤ j → j < i → ¬ s.Has j) ∧
    rest.stop = stop ∧ rest.At s (i + 1)
  | .word rest => ∃ q, p ≤ q ∧ (∀ j, p ≤ j → j < q → j < stop → ¬ s.Has j) ∧
    rest.stop = stop ∧ rest.At s q
  | .finished _ => ∀ j, p ≤ j → j < stop → ¬ s.Has j
  | .outOfBounds => False

/-- What a move finds does not depend on the numbers outside of the range. -/
theorem Move.Is.congr {s s' : Bitset} {stop p : Nat} {found : Move} (h : Is s stop p found)
    (hsame : ∀ i, p ≤ i → i < stop → (s.Has i ↔ s'.Has i)) : Is s' stop p found := by
  cases found with
  | member i rest =>
    obtain ⟨hpi, hlt, hhas, hno, hstop, hat⟩ := h
    refine ⟨hpi, hlt, (hsame i hpi hlt).1 hhas, ?_, hstop, ?_⟩
    · intro j hj hji hhas
      exact hno j hj hji ((hsame j hj (hji.trans hlt)).2 hhas)
    · exact hat.congr fun j hj hjlt => hsame j (by omega) (hstop ▸ hjlt)
  | word rest =>
    obtain ⟨q, hpq, hno, hstop, hat⟩ := h
    refine ⟨q, hpq, ?_, hstop, ?_⟩
    · intro j hj hjq hlt hhas
      exact hno j hj hjq hlt ((hsame j hj hlt).2 hhas)
    · exact hat.congr fun j hj hjlt => hsame j (hpq.trans hj) (hstop ▸ hjlt)
  | finished rest => exact fun j hj hlt hhas => h j hj hlt ((hsame j hj hlt).2 hhas)
  | outOfBounds => exact h

theorem move_spec {s : Bitset} {n : Nat} (hs : s.Sized n) (hn : n + wordBits < wordLimit)
    {w : SetBits} {p : Nat} (hstop : w.stop ≤ n) (h : w.At s p) :
    Move.Is s w.stop p (s.move w) := by
  unfold move
  split
  · next hne => exact h.found_pending hne
  · next hzero =>
    have hzero := not_not.1 hzero
    simp only
    rw [if_neg (Nat.not_le.2 h.no_wrap)]
    split
    · next hend =>
      intro j hj hlt
      exact h.none_in_word hzero hj hlt (by omega)
    · next hend =>
      have hword : w.word + 1 < s.words.size := by
        rw [hs.words_eq]
        have hlt : (w.word + 1) * wordBits < n := by omega
        simpa [wordBits] using div_lt_wordCount hlt
      rw [dif_pos hword]
      exact ⟨_, h.pos_le, fun j hj hin hlt => h.none_in_word hzero hj hlt hin, rfl,
        h.advance hs.words_eq hn hword⟩

/-- The members in `[p, stop)` in ascending order. -/
def left (s : Bitset) (p stop : Nat) : List Nat :=
  (List.range' p (stop - p)).filter fun j => decide (s.Has j)

theorem mem_left {s : Bitset} {p stop i : Nat} :
    i ∈ s.left p stop ↔ p ≤ i ∧ i < stop ∧ s.Has i := by
  unfold left
  rw [List.mem_filter, List.mem_range'_1, decide_eq_true_eq, ← and_assoc]
  refine and_congr_left fun _ => ?_
  omega

theorem pairwise_left (s : Bitset) (p stop : Nat) : (s.left p stop).Pairwise (· < ·) :=
  (List.pairwise_lt_range' ..).filter _

/-- No member is passed when a walk moves on to a later place without having found one. -/
theorem left_eq_of_word {s : Bitset} {p q stop : Nat} (hpq : p ≤ q)
    (hno : ∀ j, p ≤ j → j < q → j < stop → ¬ s.Has j) : s.left p stop = s.left q stop := by
  unfold left
  by_cases hq : q ≤ stop
  · have hsplit : List.range' p (stop - p) =
        List.range' p (q - p) ++ List.range' q (stop - q) := by
      rw [show stop - p = (q - p) + (stop - q) by omega, ← List.range'_append_1,
        show p + (q - p) = q by omega]
    rw [hsplit, List.filter_append, List.filter_eq_nil_iff.2, List.nil_append]
    intro j hj
    rw [List.mem_range'_1] at hj
    simpa using hno j hj.1 (by omega) (by omega)
  · rw [show stop - q = 0 by omega, List.range'_zero, List.filter_nil]
    exact filter_range'_finished fun j hj hlt => hno j hj (by omega) hlt

/-! ## Clearing one word -/

/-- Clears the bits of `[start, stop)` in one word; fails past the last word. -/
def clearWord? (s : Bitset) (start stop word : Nat) : Option Bitset :=
  match clearWords start stop 1 word s.words with
  | (words, true) => some { s with words }
  | (_, false) => none

theorem clearWords_succ (start stop count word : Nat) (words : Array UInt64) :
    clearWords start stop (count + 1) word words =
      match clearWords start stop 1 word words with
      | (words, true) => clearWords start stop count (word + 1) words
      | (words, false) => (words, false) := by
  simp only [clearWords]
  split <;> rfl

theorem exists_clearWord? {s : Bitset} (start stop : Nat) {word : Nat} (h : word < s.words.size) :
    ∃ s', s.clearWord? start stop word = some s' := by
  unfold clearWord? clearWords clearWords
  rw [if_pos h]
  exact ⟨_, rfl⟩

theorem eq_of_clearWord? {s s' : Bitset} {start stop word : Nat}
    (h : s.clearWord? start stop word = some s') :
    s' = { s with words := (clearWords start stop 1 word s.words).1 } := by
  unfold clearWord? at h
  split at h
  · next heq =>
    cases h
    rw [heq]
  · cases h

/-- Clearing one word removes the members of the range in that word. -/
theorem has_clearWord? {s s' : Bitset} {start stop word : Nat}
    (h : s.clearWord? start stop word = some s') (j : Nat) :
    s'.Has j ↔ s.Has j ∧ ¬ (j / wordBits = word ∧ start ≤ j ∧ j < stop) := by
  rw [eq_of_clearWord? h, has_clearWords]
  refine and_congr_right fun _ => not_congr ?_
  constructor
  · rintro ⟨h1, h2, hrange⟩
    exact ⟨by omega, hrange⟩
  · rintro ⟨rfl, hrange⟩
    exact ⟨le_rfl, Nat.lt_succ_self _, hrange⟩

theorem Sized.clearWord? {s s' : Bitset} {n start stop word : Nat} (hs : s.Sized n)
    (h : s.clearWord? start stop word = some s') : s'.Sized n := by
  refine ⟨?_, ?_, fun j hj => hs.lt_of_has j ((has_clearWord? h j).1 hj).1⟩
  · rw [eq_of_clearWord? h]
    exact hs.size_eq
  · rw [eq_of_clearWord? h]
    exact (size_clearWords _ _ _ _ _).trans hs.words_eq

/-- Two sets of the same size with the same members have the same words. -/
theorem eq_of_has {s s' : Bitset} {n : Nat} (hs : s.Sized n) (hs' : s'.Sized n)
    (h : ∀ i, s.Has i ↔ s'.Has i) : s = s' := by
  have hwords : s.words = s'.words := by
    refine Array.ext (by rw [hs.words_eq, hs'.words_eq]) ?_
    intro k hk hk'
    refine eq_of_testBit fun i hi => ?_
    have hdiv : (k * wordBits + i) / wordBits = k := by
      unfold wordBits at *
      omega
    have hmod : (k * wordBits + i) % wordBits = i := by
      unfold wordBits at *
      omega
    have hsame := h (k * wordBits + i)
    rw [has_iff, has_iff, hdiv, hmod, Array.getElem?_eq_getElem hk,
      Array.getElem?_eq_getElem hk'] at hsame
    rw [Bool.eq_iff_iff]
    simpa using hsame
  obtain ⟨words, size⟩ := s
  obtain ⟨words', size'⟩ := s'
  obtain rfl : words = words' := hwords
  have hsize : size = size' := hs.size_eq.trans hs'.size_eq.symm
  rw [hsize]

end Superstep.Bitset
