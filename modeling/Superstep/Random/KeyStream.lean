/-!
# A seeded stream of random words

The stream is the ChaCha key stream with eight rounds: a key of eight words, a 64-bit block counter
from zero, and a nonce of zero. The words of the blocks, read in order, are the stream; a 64-bit
draw takes two of them, the lower half first.

The key is spread from a 64-bit seed by a linear congruential generator whose outputs are permuted
(`Seed.next`).
-/

namespace Superstep.Random

/-! ## From a seed to a key -/

namespace Seed

/-- The next state of the generator that spreads a seed. -/
def advance (state : UInt64) : UInt64 := state * 6364136223846793005 + 11634580027462260723

/-- Rotates a word to the right. -/
def rotateRight (w : UInt32) (count : UInt32) : UInt32 := w >>> count ||| w <<< (32 - count)

/-- The word that a state stands for: its upper bits, folded and rotated by the topmost ones. -/
def output (state : UInt64) : UInt32 :=
  rotateRight (((state >>> 18 ^^^ state) >>> 27).toUInt32) ((state >>> 59).toUInt32)

/-- The first `n` words spread from a state. -/
def words : Nat → UInt64 → List UInt32
  | 0, _ => []
  | n + 1, state => output (advance state) :: words n (advance state)

end Seed

/-! ## Blocks of the key stream -/

/-- The sixteen words of a block. -/
abbrev Block := Vector UInt32 16

namespace Block

/-- Rotates a word to the left by fewer than 32 and more than 0 bits. -/
def rotateLeft (w : UInt32) (count : UInt32) : UInt32 := w <<< count ||| w >>> (32 - count)

/-- The quarter round on four words of a block. -/
def quarterRound (s : Block) (i j k l : Fin 16) : Block :=
  let a := s[i]; let b := s[j]; let c := s[k]; let d := s[l]
  let a := a + b; let d := rotateLeft (d ^^^ a) 16
  let c := c + d; let b := rotateLeft (b ^^^ c) 12
  let a := a + b; let d := rotateLeft (d ^^^ a) 8
  let c := c + d; let b := rotateLeft (b ^^^ c) 7
  (((s.set i a).set j b).set k c).set l d

/-- A round on the columns followed by a round on the diagonals. -/
def doubleRound (s : Block) : Block :=
  let s := s.quarterRound 0 4 8 12
  let s := s.quarterRound 1 5 9 13
  let s := s.quarterRound 2 6 10 14
  let s := s.quarterRound 3 7 11 15
  let s := s.quarterRound 0 5 10 15
  let s := s.quarterRound 1 6 11 12
  let s := s.quarterRound 2 7 8 13
  s.quarterRound 3 4 9 14

/-- The block of a key at a counter: eight rounds on the input, added to the input. -/
def ofKey (key : Vector UInt32 8) (counter : UInt64) : Block :=
  let input : Block :=
    #v[0x61707865, 0x3320646e, 0x79622d32, 0x6b206574,
      key[0], key[1], key[2], key[3], key[4], key[5], key[6], key[7],
      counter.toUInt32, (counter >>> 32).toUInt32, 0, 0]
  let mixed := input.doubleRound.doubleRound.doubleRound.doubleRound
  Vector.zipWith (· + ·) mixed input

end Block

/-! ## The stream -/

/-- A position in a key stream: the key, the number of the next block, and what is left of the
    block before it. -/
structure KeyStream where
  key : Vector UInt32 8
  counter : UInt64
  left : List UInt32

namespace KeyStream

/-- The stream of a seed, from its start. -/
def ofSeed (seed : UInt64) : KeyStream :=
  let words := Seed.words 8 seed
  ⟨Vector.ofFn fun i => words.getD i 0, 0, []⟩

/-- Draws 64 bits. A block holds an even number of words, so that a draw never spans two blocks. -/
def next (s : KeyStream) : UInt64 × KeyStream :=
  let join (low high : UInt32) : UInt64 := low.toUInt64 ||| high.toUInt64 <<< 32
  match s.left with
  | low :: high :: rest => (join low high, { s with left := rest })
  | _ =>
    let block := Block.ofKey s.key s.counter
    (join block[0] block[1], { s with counter := s.counter + 1, left := block.toList.drop 2 })

end KeyStream

end Superstep.Random
