import Superstep.Proofs.Storage.FiniteSet
import Superstep.Proofs.Storage.Walk

/-!
# Walking through any range

A walk may be asked for any range, also for one that starts far behind the set or ends before it
starts. `Bitset.next` asks for the position of the next word, which may be no word. Here every
number on the way is asked for (`walk?`, `next?`): nothing else overflows. `Finds` is a sequence of
calls up to the one that finds nothing more.

A walk that starts at or after the end of its range has no member, but it still moves on to the
next word before it notices. The position of that word is no word if the range starts in the last
one, and the position after it if the range starts in the last but one.

Results:
* `walk_finds_range`: for every set that can be reserved and every range, a walk finds the members
  of the range in ascending order, then nothing, and nothing when it is asked once more, exactly if
  the range starts before the last two words.
* `start_in_last_word`: in the last word, an empty range is not walked through.
-/

namespace Superstep.Bitset

/-! ## Walks with every number checked -/

/-- A number, if it is a word. -/
def word? (n : Nat) : Option Nat := if n < wordLimit then some n else none

/-- The word with the bits below `i` set, by a shift and a subtraction. -/
def bitsBelow? (i : Nat) : Option UInt64 := if i < wordBits then Word.sub? (bit i) 1 else none

/-- The bits of word number `word` that stand for numbers in `[start, stop)`. -/
def rangeMask? (word start stop : Nat) : Option UInt64 := do
  let first ← word? (word * wordBits)
  let low := min (start - first) wordBits
  let high := min (stop - first) wordBits
  if low ≥ high then return 0
  let upper ← if high = wordBits then some (-1) else bitsBelow? high
  let lower ← bitsBelow? low
  return upper &&& ~~~lower

/-- A walk through the members in `[start, stop)`. -/
def walk? (s : Bitset) (start stop : Nat) : Option SetBits :=
  let stop := min stop s.size
  let word := start / wordBits
  if start < stop then do
    let bits ← s.words[word]?
    let mask ← rangeMask? word start stop
    return ⟨start, stop, word, bits &&& mask⟩
  else some ⟨start, stop, word, 0⟩

/-- The next step of a walk, unless a number is no word. -/
def next? (s : Bitset) (w : SetBits) : Option Found :=
  if w.pending ≠ 0 then do
    let first ← word? (w.word * wordBits)
    let i ← word? (first + lowestBit w.pending)
    let below ← Word.sub? w.pending 1
    return .member i { w with pending := w.pending &&& below }
  else if (w.word + 1) * wordBits < wordLimit then
    let word := w.word + 1
    if word * wordBits ≥ w.stop then some (.finished { w with word })
    else if _h : word < s.words.size then
      (rangeMask? word w.start w.stop).bind fun mask =>
        s.next? { w with word, pending := s.words[word] &&& mask }
    else some .outOfBounds
  else none
termination_by s.words.size - w.word

/-- Steps of a walk, one after the other: they find the given members, in this order, and then that
    there are no more, which leaves the walk at `last`. -/
inductive Finds (s : Bitset) : SetBits → List Nat → SetBits → Prop where
  | finished {w last : SetBits} (h : s.next? w = some (.finished last)) : Finds s w [] last
  | member {w rest last : SetBits} {i : Nat} {is : List Nat}
      (h : s.next? w = some (.member i rest)) (hrest : Finds s rest is last) :
      Finds s w (i :: is) last

/-! ## Reserved sets -/

/-- A set has the words of its size, and they could be reserved. -/
structure Reserved (s : Bitset) : Prop where
  words_eq : s.words.size = wordCount s.size
  fits : wordCount s.size * Memory.wordBytes ≤ Memory.addressSpace

instance (s : Bitset) : Decidable s.Reserved :=
  decidable_of_iff (s.words.size = wordCount s.size ∧
    wordCount s.size * Memory.wordBytes ≤ Memory.addressSpace)
    ⟨fun h => ⟨h.1, h.2⟩, fun h => ⟨h.1, h.2⟩⟩

theorem size_words_clear (s : Bitset) (start stop : Nat) :
    (s.clear start stop).1.words.size = s.words.size := by
  unfold clear
  split
  · rfl
  · exact size_clearWords _ _ _ _ _

namespace Reserved

variable {s s' : Bitset}

theorem new [Memory.Allocator] {n : Nat} (h : Bitset.new n = .ok s) : s.Reserved := by
  have hsized := (new_spec h).1
  refine ⟨by rw [hsized.words_eq, hsized.size_eq], ?_⟩
  rw [hsized.size_eq]
  exact size_le_of_new h

/-- Every operation leaves a set reserved, also an insertion after its size. -/
theorem run? (h : s.Reserved) {op : Op} {answer : Answer} (hrun : op.run? s = some (s', answer)) :
    s'.Reserved := by
  suffices hsame : s'.words.size = s.words.size ∧ s'.size = s.size by
    obtain ⟨hwords, hsize⟩ := hsame
    exact ⟨by rw [hwords, hsize, h.words_eq], by rw [hsize]; exact h.fits⟩
  cases op with
  | insert i =>
    obtain ⟨⟨t, new⟩, hinsert, heq⟩ := Option.map_eq_some_iff.1 hrun
    obtain rfl := congrArg Prod.fst heq
    exact size_words_insert? hinsert
  | contains i =>
    obtain ⟨found, -, heq⟩ := Option.map_eq_some_iff.1 hrun
    obtain rfl := congrArg Prod.fst heq
    exact ⟨rfl, rfl⟩
  | fill =>
    obtain rfl := congrArg Prod.fst (Option.some.inj hrun)
    exact ⟨by simp [Bitset.fill], rfl⟩
  | clear start stop =>
    rw [Op.run?] at hrun
    split at hrun
    · next t hclear =>
      obtain rfl := congrArg Prod.fst (Option.some.inj hrun)
      obtain rfl : (s.clear start stop).1 = t := congrArg Prod.fst hclear
      exact ⟨size_words_clear s start stop, size_clear s start stop⟩
    · cases hrun
  | count =>
    obtain rfl := congrArg Prod.fst (Option.some.inj hrun)
    exact ⟨rfl, rfl⟩
  | members start stop =>
    obtain ⟨found, -, heq⟩ := Option.map_eq_some_iff.1 hrun
    obtain rfl := congrArg Prod.fst heq
    exact ⟨rfl, rfl⟩

theorem runAll? (h : s.Reserved) {ops : List Op} {answers : List Answer}
    (hrun : s.runAll? ops = some (s', answers)) : s'.Reserved := by
  induction ops generalizing s answers with
  | nil =>
    obtain rfl := congrArg Prod.fst (Option.some.inj hrun)
    exact h
  | cons op ops ih =>
    obtain ⟨⟨t, answer⟩, hstep, hrun⟩ := Option.bind_eq_some_iff.1 hrun
    obtain ⟨⟨t', rest⟩, hrest, heq⟩ := Option.bind_eq_some_iff.1 hrun
    obtain rfl := congrArg Prod.fst (Option.some.inj heq)
    exact ih (h.run? hstep) hrest

/-- The position of no word of a reserved set is anywhere near the largest word. -/
theorem size_lt (h : s.Reserved) : s.size + 2 * wordBits < wordLimit := by
  have hfits := h.fits
  simp only [wordCount, wordBits, Memory.wordBytes, Memory.addressSpace, wordLimit] at *
  omega

end Reserved

/-! ## Steps with every number checked -/

theorem bitsBelow?_eq {i : Nat} (hi : i < wordBits) : bitsBelow? i = some (bitsBelow i) := by
  have hone : (1 : UInt64) ≤ bit i := by
    rw [UInt64.le_iff_toNat_le, toNat_bit hi]
    exact Nat.one_le_two_pow
  rw [bitsBelow?, if_pos hi, bitsBelow, if_pos hi, Word.sub?_of_le hone]

theorem rangeMask?_eq {word : Nat} (h : word * wordBits < wordLimit) (start stop : Nat) :
    rangeMask? word start stop = some (rangeMask word start stop) := by
  unfold rangeMask? rangeMask
  rw [word?, if_pos h, Option.bind_eq_bind, Option.bind_some]
  dsimp only
  split
  · rfl
  · next hlt =>
    have hlow : min (start - word * wordBits) wordBits < wordBits := by omega
    rw [bitsBelow?_eq hlow]
    split
    · next hhigh =>
      have hfull : bitsBelow wordBits = -1 := rfl
      rw [hhigh, hfull]
      rfl
    · next hhigh =>
      have hhigh' : min (stop - word * wordBits) wordBits < wordBits := by omega
      rw [bitsBelow?_eq hhigh']
      rfl

theorem Reserved.walk?_eq {s : Bitset} (hs : s.Reserved) {start : Nat} (hstart : start < wordLimit)
    (stop : Nat) : s.walk? start stop = some (s.walk start stop) := by
  unfold walk? walk
  dsimp only
  split
  · next hlt =>
    have hword : start / wordBits < s.words.size :=
      hs.words_eq ▸ div_lt_wordCount (hlt.trans_le (Nat.min_le_right _ _))
    have hfirst : start / wordBits * wordBits < wordLimit :=
      (Nat.div_mul_le_self ..).trans_lt hstart
    rw [Array.getElem?_eq_getElem hword, rangeMask?_eq hfirst, Array.getD_eq_getD_getElem?,
      Array.getElem?_eq_getElem hword]
    rfl
  · rfl

section Steps

variable {s : Bitset} {n p bound : Nat} {w : SetBits} {found : Found}

/-- A walk whose next word has a position takes the next step without any other overflow. -/
theorem next?_eq (hs : s.words.size = wordCount n) (hn : n + wordBits < wordLimit) (w : SetBits)
    (p : Nat) (h : w.At s p) : s.next? w = some (s.next w) := by
  fun_induction s.next w generalizing p with
  | case1 w hne =>
    have hlow := (lowestBit_spec hne).1
    have hnext := h.no_wrap
    rw [Nat.add_mul, Nat.one_mul] at hnext
    have hfirst : w.word * wordBits < wordLimit := by omega
    have hi : w.word * wordBits + lowestBit w.pending < wordLimit := by omega
    have hone : (1 : UInt64) ≤ w.pending := by
      rw [UInt64.le_iff_toNat_le]
      exact Nat.pos_of_ne_zero fun hzero => hne (UInt64.toNat_inj.1 hzero)
    rw [next?, if_pos hne, word?, if_pos hfirst, Option.bind_eq_bind, Option.bind_some, word?,
      if_pos hi, Option.bind_some, Word.sub?_of_le hone]
    rfl
  | case2 w hzero word hwrap => exact absurd h.no_wrap (Nat.not_lt.2 hwrap)
  | case3 w hzero word hwrap hend =>
    rw [next?, if_neg hzero, if_pos h.no_wrap]
    dsimp only
    rw [if_pos hend]
  | case4 w hzero word hwrap hend hword ih =>
    rw [next?, if_neg hzero, if_pos h.no_wrap]
    dsimp only
    rw [if_neg hend, dif_pos hword, rangeMask?_eq h.no_wrap, Option.bind_some]
    exact ih _ (h.advance hs hn hword)
  | case5 w hzero word hwrap hend hword =>
    rw [next?, if_neg hzero, if_pos h.no_wrap]
    dsimp only
    rw [if_neg hend, dif_neg hword]

/-- Where a step leaves a walk that stands in a word before `bound`: in such a word again, or, when
    it is over, at most one word further on and with nothing pending. -/
def Found.Within (stop bound : Nat) : Found → Prop
  | .member _ rest => rest.word * wordBits < bound
  | .finished last => last.stop = stop ∧ last.pending = 0 ∧ stop ≤ last.word * wordBits ∧
    last.word * wordBits < bound + wordBits
  | .outOfBounds => True

theorem next?_within (hstop : w.stop ≤ bound) (hword : w.word * wordBits < bound)
    (h : s.next? w = some found) : found.Within w.stop bound := by
  fun_induction s.next? w with
  | case1 w hne =>
    obtain ⟨first, -, h⟩ := Option.bind_eq_some_iff.1 h
    obtain ⟨i, -, h⟩ := Option.bind_eq_some_iff.1 h
    obtain ⟨below, -, h⟩ := Option.bind_eq_some_iff.1 h
    obtain rfl := Option.some.inj h
    exact hword
  | case2 w hzero hwrap word hend =>
    obtain rfl := Option.some.inj h
    refine ⟨rfl, not_not.1 hzero, hend, ?_⟩
    show (w.word + 1) * wordBits < bound + wordBits
    rw [Nat.add_mul, Nat.one_mul]
    exact Nat.add_lt_add_right hword _
  | case3 w hzero hwrap word hend hin ih =>
    obtain ⟨mask, -, h⟩ := Option.bind_eq_some_iff.1 h
    exact ih mask hstop (lt_of_lt_of_le (Nat.lt_of_not_le hend) hstop) h
  | case4 w hzero hwrap word hend hout =>
    obtain rfl := Option.some.inj h
    exact trivial
  | case5 => cases h

/-- A walk finds the members that are left and is over after that. -/
theorem SetBits.At.exists_finds (hs : s.words.size = wordCount n) (hn : n + wordBits < wordLimit)
    (hsize : w.stop ≤ n) (hstop : w.stop ≤ bound) (hword : w.word * wordBits < bound)
    (h : w.At s p) :
    ∃ last, s.Finds w (s.left p w.stop) last ∧ (Found.finished last).Within w.stop bound := by
  -- Every member that is found leaves less of the range.
  induction hleft : w.stop - p using Nat.strong_induction_on generalizing w p with
  | _ k ih =>
    have hnext? := next?_eq hs hn w p h
    have hnext := next_spec hs hn w p hsize h
    have hwithin := next?_within hstop hword hnext?
    cases hfound : s.next w with
    | member i rest =>
      rw [hfound] at hnext? hnext hwithin
      obtain ⟨hpi, hlt, hhas, hno, hsame, hat⟩ := hnext
      obtain ⟨last, hfinds, hlast⟩ :=
        ih (rest.stop - (i + 1)) (by omega) (by omega) (by omega) hwithin hat rfl
      rw [hsame] at hfinds hlast
      refine ⟨last, ?_, hlast⟩
      rw [left, filter_range'_found hpi hlt hhas hno]
      exact .member hnext? hfinds
    | finished last =>
      rw [hfound] at hnext? hnext hwithin
      refine ⟨last, ?_, hwithin⟩
      rw [left, filter_range'_finished hnext]
      exact .finished hnext?
    | outOfBounds =>
      rw [hfound] at hnext
      exact hnext.elim

theorem next?_of_stop_le (hzero : w.pending = 0) (hstop : w.stop ≤ (w.word + 1) * wordBits)
    (hwrap : (w.word + 1) * wordBits < wordLimit) :
    s.next? w = some (.finished { w with word := w.word + 1 }) := by
  rw [next?, if_neg (not_not.2 hzero), if_pos hwrap]
  exact if_pos hstop

/-- A walk without pending members ends where the next word has no position. -/
theorem next?_of_wrap (hzero : w.pending = 0) (hwrap : wordLimit ≤ (w.word + 1) * wordBits) :
    s.next? w = none := by
  rw [next?, if_neg (not_not.2 hzero), if_neg (Nat.not_lt.2 hwrap)]

theorem Finds.next?_ne_none {is : List Nat} {last : SetBits} (h : s.Finds w is last) :
    s.next? w ≠ none := by
  cases h with
  | finished h => exact Option.ne_none_iff_exists'.2 ⟨_, h⟩
  | member h => exact Option.ne_none_iff_exists'.2 ⟨_, h⟩

theorem Finds.eq_of_finished {is : List Nat} {last rest : SetBits} (h : s.Finds w is last)
    (hover : s.next? w = some (.finished rest)) : last = rest := by
  cases h with
  | finished h => exact Found.finished.inj (Option.some.inj (h.symm.trans hover))
  | member h => cases h.symm.trans hover

end Steps

/-! ## All ranges -/

section Ranges

variable {s : Bitset} {start : Nat}

/-- A range that starts before the last two words is walked through, and a further step finds
    nothing again. -/
theorem Reserved.exists_finds (hs : s.Reserved) (hstart : start + 2 * wordBits < wordLimit)
    (stop : Nat) :
    ∃ w last again, s.walk? start stop = some w ∧ s.Finds w (s.left start (min stop s.size)) last ∧
      s.next? last = some (.finished again) := by
  have hsize := hs.size_lt
  have hmod := mod_wordBits_lt start
  have hdiv := Nat.div_add_mod' start wordBits
  have hat : (s.walk start stop).At s start := by
    apply at_walk_of_no_wrap hs.words_eq
    rw [Nat.add_mul, Nat.one_mul]
    omega
  have hstop : (s.walk start stop).stop ≤ s.size := Nat.min_le_right _ _
  have hword : (s.walk start stop).word * wordBits < max (start + 1) s.size := by
    show start / wordBits * wordBits < max (start + 1) s.size
    omega
  obtain ⟨last, hfinds, hover⟩ :=
    hat.exists_finds hs.words_eq (by omega) hstop (hstop.trans (Nat.le_max_right _ _)) hword
  obtain ⟨hsame, hzero, hend, hlast⟩ := hover
  have hnext : (last.word + 1) * wordBits = last.word * wordBits + wordBits := Nat.succ_mul ..
  exact ⟨_, last, _, hs.walk?_eq (by omega) stop, hfinds,
    next?_of_stop_le hzero (by omega) (by omega)⟩

theorem left_of_le {stop : Nat} (h : stop ≤ start) : s.left start stop = [] := by
  rw [left, Nat.sub_eq_zero_of_le h]
  rfl

theorem walk_of_size_le (hsize : s.size ≤ start) (stop : Nat) :
    s.walk start stop = ⟨start, min stop s.size, start / wordBits, 0⟩ := by
  unfold walk
  dsimp only
  rw [if_neg (Nat.not_lt.2 ((Nat.min_le_right _ _).trans hsize))]

/-- In the last two words a walk does not come to an end and then find nothing again. -/
theorem Reserved.not_finds (hs : s.Reserved) {stop : Nat} {w last again : SetBits} {is : List Nat}
    (hstart : start < wordLimit) (hlate : wordLimit ≤ start + 2 * wordBits)
    (hwalk : s.walk? start stop = some w) (hfinds : s.Finds w is last) :
    s.next? last ≠ some (.finished again) := by
  have hsize := hs.size_lt
  rw [hs.walk?_eq hstart, walk_of_size_le (by omega)] at hwalk
  obtain rfl := Option.some.inj hwalk
  by_cases hwrap : (start / wordBits + 1) * wordBits < wordLimit
  · -- The first step still comes to an end, but it leaves the walk in the last word.
    have hfirst : s.next? ⟨start, min stop s.size, start / wordBits, 0⟩ =
        some (.finished ⟨start, min stop s.size, start / wordBits + 1, 0⟩) :=
      next?_of_stop_le rfl (by simp only [wordBits] at *; omega) hwrap
    obtain rfl := hfinds.eq_of_finished hfirst
    rw [next?_of_wrap rfl (by simp only [wordBits, wordLimit] at *; omega)]
    exact (Option.some_ne_none _).symm
  · have hnone : s.next? ⟨start, min stop s.size, start / wordBits, 0⟩ = none :=
      next?_of_wrap rfl (Nat.not_lt.1 hwrap)
    exact absurd hnone hfinds.next?_ne_none

/-- Collecting the members of a range needs no step after the one that finds nothing, so that it
    fails only for a range that starts in the last word. -/
theorem Reserved.members?_eq (hs : s.Reserved) (hstart : start < wordLimit) (stop : Nat) :
    s.members? start stop = if start + wordBits < wordLimit
      then some (s.left start (min stop s.size)) else none := by
  have hsize := hs.size_lt
  have hstop : (s.walk start stop).stop = min stop s.size := rfl
  split_ifs with hearly
  · have hat : (s.walk start stop).At s start :=
      at_walk_of_no_wrap hs.words_eq (by simp only [wordBits] at *; omega)
    have hfuel : (s.walk start stop).stop - start < s.words.size * wordBits + 1 := by
      rw [hstop, hs.words_eq]
      unfold wordCount wordBits
      omega
    rw [members?, collect_spec hs.words_eq (by omega) _ _ _ start
      (Nat.min_le_right _ _) hat hfuel, hstop, left]
    simp
  · have hwrap : (start / wordBits + 1) * wordBits ≥ wordLimit := by
      simp only [wordBits, wordLimit] at *
      omega
    have hnext : s.next ⟨start, min stop s.size, start / wordBits, 0⟩ = .outOfBounds := by
      rw [next, if_neg (by simp)]
      exact if_pos hwrap
    rw [members?, collect, walk_of_size_le (by omega), hnext]
    rfl

/-- For every set that can be reserved, whatever its words hold, and every range of words. The walk
    comes to an end, has found the members of the range in ascending order until then, finds nothing
    once more, and no number on the way is too large for a word, exactly if the range starts before
    the last two words. Collecting the members up to the first time that nothing is found fails
    exactly if the range starts in the last word, and otherwise it finds the members of the
    range. -/
theorem walk_finds_range (hs : s.Reserved) (start stop : UInt64) :
    ((∃ w last again, s.walk? start.toNat stop.toNat = some w ∧
        s.Finds w (s.left start.toNat (min stop.toNat s.size)) last ∧
        s.next? last = some (.finished again)) ↔ start.toNat + 2 * wordBits < wordLimit) ∧
    s.members? start.toNat stop.toNat =
      if start.toNat + wordBits < wordLimit
      then some (s.left start.toNat (min stop.toNat s.size)) else none := by
  have hstart := toNat_lt_wordLimit start
  refine ⟨⟨?_, fun hearly => hs.exists_finds hearly stop.toNat⟩, hs.members?_eq hstart stop.toNat⟩
  rintro ⟨w, last, again, hwalk, hfinds, hagain⟩
  by_contra hlate
  exact hs.not_finds hstart (Nat.not_lt.1 hlate) hwalk hfinds hagain

end Ranges

/-- Members on both sides of a border between words, and one after the size. -/
theorem walk_finds_range_acrossWords :
    let s : Bitset := ⟨#[0x8000000000000000, 0x1000000001], 70⟩
    (⟨#[0, 0], 70⟩ : Bitset).runAll? [.insert 63, .insert 64, .insert 100] =
        some (s, [.flag true, .flag true, .flag true]) ∧
      (∃ w last again, s.walk? 10 1000 = some w ∧ s.Finds w [63, 64] last ∧
        s.next? last = some (.finished again)) ∧
      s.members? 10 1000 = some [63, 64] := by
  intro s
  have hnew : Bitset.new 70 = .ok ⟨#[0, 0], 70⟩ := rfl
  have hrun : (⟨#[0, 0], 70⟩ : Bitset).runAll? [.insert 63, .insert 64, .insert 100] =
      some (s, [.flag true, .flag true, .flag true]) := by
    decide +kernel
  have hs : s.Reserved := (Reserved.new hnew).runAll? hrun
  have hleft : s.left (10 : UInt64).toNat (min (1000 : UInt64).toNat s.size) = [63, 64] := by
    decide +kernel
  obtain ⟨hfinds, hmembers⟩ := walk_finds_range hs 10 1000
  rw [hleft] at hfinds hmembers
  exact ⟨hrun, hfinds.2 (by decide), hmembers⟩

/-- A range that starts in the last word and holds no number of the set: the first step of the walk
    asks for a position that is no word. -/
theorem start_in_last_word :
    let s : Bitset := ⟨#[0], 64⟩
    let start := 18446744073709551552
    let stop := 18446744073709551615
    Bitset.new 64 = .ok s ∧ s.left start (min stop s.size) = [] ∧
      (∃ w, s.walk? start stop = some w ∧ s.next? w = none) ∧ s.members? start stop = none := by
  intro s start stop
  have hs : s.Reserved := by decide
  have hwalk : s.walk? start stop = some ⟨start, 64, 288230376151711743, 0⟩ := by decide
  refine ⟨rfl, left_of_le (by decide), ⟨_, hwalk, ?_⟩, ?_⟩
  · exact next?_of_wrap rfl (by decide)
  · rw [hs.members?_eq (by decide)]
    rfl

end Superstep.Bitset
