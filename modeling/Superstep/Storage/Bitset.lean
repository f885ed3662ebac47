import Superstep.Storage.Memory
import Superstep.Word

/-!
# Fixed-size sets of small numbers

A `Bitset` stores a set of numbers below its size as bits of 64-bit words. Every operation is made
of operations on single words (setting bits, clearing bits, reading), so that several workers can
share a set: each of those is one indivisible action.

Indices are not checked against the size but against the words: an operation on an index past the
last word fails. `SetBits` walks the members of a range in ascending order, one word at a time.
Positions are 64-bit numbers, and the position after the last word wraps to zero.

Main statements: `rangeMask_eq_zero`, an empty range has no bits; `size_words_insert?` and
`size_clear`, no operation changes the size of a set.
-/

namespace Superstep

/-- A set of numbers below `size`, stored in words of 64 bits. -/
structure Bitset where
  words : Array UInt64
  size : Nat
deriving DecidableEq

namespace Bitset

/-- The number of bits of a word. -/
def wordBits : Nat := 64

/-! ## Words -/

/-- The word in which only bit `i` is set. -/
def bit (i : Nat) : UInt64 := 1 <<< i.toUInt64

/-- The word with the bits below `i` set. -/
def bitsBelow (i : Nat) : UInt64 := if i < wordBits then bit i - 1 else -1

/-- The bits of word number `word` that stand for numbers in `[start, stop)`. -/
def rangeMask (word start stop : Nat) : UInt64 :=
  let low := min (start - word * wordBits) wordBits
  let high := min (stop - word * wordBits) wordBits
  if low ≥ high then 0 else bitsBelow high &&& ~~~bitsBelow low

/-- Whether bit `i` of a word is set. -/
def testBit (w : UInt64) (i : Nat) : Bool := w &&& bit i ≠ 0

/-- The lowest bit that is set in a word. -/
def lowestBit (w : UInt64) : Nat := ((List.range wordBits).find? (testBit w)).getD 0

/-- A word without its lowest set bit. -/
def dropLowestBit (w : UInt64) : UInt64 := w &&& (w - 1)

/-- The number of bits that are set in a word. -/
def bitCount (w : UInt64) : Nat := (List.range wordBits).countP (testBit w)

/-! ## Sets -/

/-- The number of words that hold `size` bits. -/
def wordCount (size : Nat) : Nat := (size + (wordBits - 1)) / wordBits

/-- The set of size zero. -/
def zero : Bitset := ⟨#[], 0⟩

/-- Reserves an empty set. -/
def new [Memory.Allocator] (size : Nat) : Except AllocationError Bitset := do
  Memory.reserve (wordCount size) Memory.wordBytes
  return ⟨Array.replicate (wordCount size) 0, size⟩

/-- Whether `i` is in the set; fails past the last word. -/
def contains? (s : Bitset) (i : Nat) : Option Bool :=
  (s.words[i / wordBits]?).map (testBit · (i % wordBits))

/-- Adds `i`, unless it is past the last word. -/
def insert (s : Bitset) (i : Nat) : Bitset :=
  { s with words := s.words.modify (i / wordBits) (· ||| bit (i % wordBits)) }

/-- Adds `i` and says whether it is new; fails past the last word. -/
def insert? (s : Bitset) (i : Nat) : Option (Bitset × Bool) :=
  (s.contains? i).map fun old => (s.insert i, !old)

/-- Adds every number below the size. -/
def fill (s : Bitset) : Bitset :=
  { s with words := s.words.mapIdx fun i _ => rangeMask i 0 s.size }

/-- Clears the bits of `[start, stop)` in `count` words from word number `word` on. It stops at the
    first word that does not exist, and says whether it met none. -/
def clearWords (start stop : Nat) : Nat → Nat → Array UInt64 → Array UInt64 × Bool
  | 0, _, words => (words, true)
  | count + 1, word, words =>
    if word < words.size then
      clearWords start stop count (word + 1)
        (words.modify word (· &&& ~~~rangeMask word start stop))
    else (words, false)

/-- Removes the numbers in `[start, stop)`. The range may end past the last word: then the words
    that exist are cleared, and the result says that it failed. -/
def clear (s : Bitset) (start stop : Nat) : Bitset × Bool :=
  if start ≥ stop then (s, true)
  else
    let first := start / wordBits
    let last := (stop - 1) / wordBits
    let (words, complete) := clearWords start stop (last + 1 - first) first s.words
    ({ s with words }, complete)

/-- The number of members. -/
def count (s : Bitset) : Nat := s.words.foldl (fun n w => n + bitCount w) 0

/-! ## Walking a range -/

/-- A walk through the members in `[start, stop)`. It stands at word number `word`, of which the
    members in `pending` are still to come. -/
structure SetBits where
  start : Nat
  stop : Nat
  word : Nat
  pending : UInt64
deriving DecidableEq

/-- What the next step of a walk finds. -/
inductive Found where
  | member (i : Nat) (rest : SetBits)
  | finished (rest : SetBits)
  /-- The next word has no position, or there is no such word. -/
  | outOfBounds

/-- A walk through the members in `[start, stop)`. The range is cut off at the size. -/
def walk (s : Bitset) (start stop : Nat) : SetBits :=
  let stop := min stop s.size
  let word := start / wordBits
  let pending :=
    if start < stop then s.words.getD word 0 &&& rangeMask word start stop else 0
  ⟨start, stop, word, pending⟩

/-- The next step of a walk: the lowest pending member, or else the first member of the words that
    follow. The walk is over when the next word starts at or after the end of the range. -/
def next (s : Bitset) (w : SetBits) : Found :=
  if w.pending ≠ 0 then
    .member (w.word * wordBits + lowestBit w.pending)
      { w with pending := dropLowestBit w.pending }
  else
    let word := w.word + 1
    if word * wordBits ≥ wordLimit then .outOfBounds
    else if word * wordBits ≥ w.stop then .finished { w with word }
    else if _h : word < s.words.size then
      s.next { w with word, pending := s.words[word] &&& rangeMask word w.start w.stop }
    else .outOfBounds
termination_by s.words.size - w.word

/-- The members that have been found, followed by those that at most `fuel` further steps of a walk
    find, if the walk ends within them and does not leave the words. -/
def collect (s : Bitset) (found : Array Nat) : Nat → SetBits → Option (Array Nat)
  | 0, _ => none
  | fuel + 1, w =>
    match s.next w with
    | .member i rest => s.collect (found.push i) fuel rest
    | .finished _ => some found
    | .outOfBounds => none

/-- The members in `[start, stop)` in ascending order, unless the walk leaves the words. No walk has
    more members than the words have bits. -/
def members? (s : Bitset) (start stop : Nat) : Option (List Nat) :=
  (s.collect #[] (s.words.size * wordBits + 1) (s.walk start stop)).map Array.toList

/-! ## Small facts -/

/-- No bit of a word stands for a number of an empty range. -/
theorem rangeMask_eq_zero {word start stop : Nat} (h : stop ≤ start) :
    rangeMask word start stop = 0 := by
  unfold rangeMask
  simp only [ge_iff_le, ite_eq_left_iff]
  intro hlt
  omega

theorem size_words_insert? {s t : Bitset} {i : Nat} {new : Bool} (h : s.insert? i = some (t, new)) :
    t.words.size = s.words.size ∧ t.size = s.size := by
  unfold insert? at h
  obtain ⟨old, -, hold⟩ := Option.map_eq_some_iff.1 h
  have := congrArg Prod.fst hold
  subst this
  simp [insert]

theorem size_clear (s : Bitset) (start stop : Nat) : (s.clear start stop).1.size = s.size := by
  unfold clear
  split <;> rfl

end Bitset

end Superstep
