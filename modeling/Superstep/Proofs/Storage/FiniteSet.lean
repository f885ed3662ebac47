import Mathlib.Data.Finset.Sort
import Mathlib.Order.Interval.Finset.Nat
import Superstep.Proofs.Storage.Bitset

/-!
# Bitsets behave as finite sets

A bitset is used through six operations (`Op`). They are run in two ways: on the words, where an
operation may leave the words (`Op.run?`, `runAll?`), and on a finite set of numbers, where nothing
can go wrong (`Op.onSet`, `onSets`). `Represents` relates the two.

Results:
* `Represents.run?`: one operation on numbers of the set's size never leaves the words, answers what
  the finite set answers, and keeps representing it.
* `behaves_as_set`: so does every sequence of operations that starts with a new set.
-/

namespace Superstep.Bitset

/-! ## Operations -/

/-- An operation on a set of numbers. -/
inductive Op where
  | insert (i : Nat)
  | contains (i : Nat)
  | fill
  | clear (start stop : Nat)
  | count
  | members (start stop : Nat)

/-- What an operation answers. -/
inductive Answer where
  | done
  | flag (value : Bool)
  | number (value : Nat)
  | list (values : List Nat)
deriving DecidableEq

/-- An operation names elements below `n`, and ranges that end at `n` or before. -/
def Op.Within (n : Nat) : Op → Prop
  | .insert i | .contains i => i < n
  | .fill | .count => True
  | .clear start stop | .members start stop => start ≤ n ∧ stop ≤ n

instance (n : Nat) : (op : Op) → Decidable (op.Within n)
  | .insert _ | .contains _ => Nat.decLt _ _
  | .fill | .count => .isTrue trivial
  | .clear _ _ | .members _ _ => instDecidableAnd

/-- An operation on words; it fails if it leaves them. -/
def Op.run? (s : Bitset) : Op → Option (Bitset × Answer)
  | .insert i => (s.insert? i).map fun (s, fresh) => (s, .flag fresh)
  | .contains i => (s.contains? i).map fun found => (s, .flag found)
  | .fill => some (s.fill, .done)
  | .clear start stop =>
    match s.clear start stop with
    | (s, true) => some (s, .done)
    | (_, false) => none
  | .count => some (s, .number s.count)
  | .members start stop => (s.members? start stop).map fun found => (s, .list found)

/-- Operations on words, one after the other, with their answers. -/
def runAll? (s : Bitset) : List Op → Option (Bitset × List Answer)
  | [] => some (s, [])
  | op :: ops => do
    let (s, answer) ← op.run? s
    let (s, answers) ← s.runAll? ops
    return (s, answer :: answers)

/-- An operation on a set of numbers below `n`. -/
def Op.onSet (n : Nat) (S : Finset Nat) : Op → Finset Nat × Answer
  | .insert i => (S ∪ {i}, .flag (i ∉ S))
  | .contains i => (S, .flag (i ∈ S))
  | .fill => (Finset.range n, .done)
  | .clear start stop => (S \ Finset.Ico start stop, .done)
  | .count => (S, .number S.card)
  | .members start stop => (S, .list ((S ∩ Finset.Ico start stop).sort))

/-- Operations on a set of numbers below `n`, one after the other, with their answers. -/
def onSets (n : Nat) (S : Finset Nat) : List Op → Finset Nat × List Answer
  | [] => (S, [])
  | op :: ops =>
    let (S, answer) := op.onSet n S
    let (S, answers) := onSets n S ops
    (S, answer :: answers)

/-- A bitset of size `n` whose members are those of a set. -/
structure Represents (s : Bitset) (n : Nat) (S : Finset Nat) : Prop where
  sized : s.Sized n
  fits : n + wordBits < wordLimit
  has_iff_mem : ∀ i, s.Has i ↔ i ∈ S

/-! ## One operation -/

section Step

variable {s : Bitset} {n start stop : Nat} {S : Finset Nat}

theorem clearWords_complete {count word : Nat} {words : Array UInt64}
    (h : word + count ≤ words.size) : (clearWords start stop count word words).2 = true := by
  induction count generalizing word words with
  | zero => rfl
  | succ count ih =>
    rw [clearWords, if_pos (by omega)]
    exact ih (by rw [Array.size_modify]; omega)

/-- Clearing a range that ends at the size or before does not leave the words. -/
theorem Sized.clear_complete (hs : s.Sized n) (start : Nat) (hstop : stop ≤ n) :
    (s.clear start stop).2 = true := by
  unfold Bitset.clear
  split
  · rfl
  · next hlt =>
    have hlast : (stop - 1) / wordBits < s.words.size := by
      rw [hs.words_eq]
      exact div_lt_wordCount (by omega)
    have hfirst : start / wordBits ≤ (stop - 1) / wordBits := Nat.div_le_div_right (by omega)
    exact clearWords_complete (by omega)

namespace Represents

variable (h : s.Represents n S)
include h

/-- The members of a range in ascending order. -/
theorem sort_inter :
    (S ∩ Finset.Ico start stop).sort =
      (List.range' start (stop - start)).filter fun i => decide (s.Has i) := by
  have hnodup : ((List.range' start (stop - start)).filter fun i => decide (s.Has i)).Nodup :=
    List.Nodup.filter _ List.nodup_range'
  have hset : S ∩ Finset.Ico start stop =
      ((List.range' start (stop - start)).filter fun i => decide (s.Has i)).toFinset := by
    ext i
    rw [Finset.mem_inter, Finset.mem_Ico, List.mem_toFinset, List.mem_filter, List.mem_range'_1,
      decide_eq_true_eq, h.has_iff_mem]
    constructor
    · rintro ⟨hmem, hle, hlt⟩
      exact ⟨⟨hle, by omega⟩, hmem⟩
    · rintro ⟨⟨hle, hlt⟩, hmem⟩
      exact ⟨hmem, hle, by omega⟩
  rw [hset, List.toFinset_sort _ hnodup]
  exact (List.pairwise_le_range' ..).filter _

/-- One operation does not leave the words, answers what the set answers, and keeps representing
    it. -/
theorem run? {op : Op} (hop : op.Within n) :
    ∃ s', op.run? s = some (s', (op.onSet n S).2) ∧ s'.Represents n (op.onSet n S).1 := by
  have hs := h.sized
  have hdecide : ∀ i, decide (s.Has i) = decide (i ∈ S) := fun i =>
    decide_eq_decide.2 (h.has_iff_mem i)
  cases op with
  | insert i =>
    refine ⟨s.insert i, ?_, hs.insert hop, h.fits, fun j => ?_⟩
    · simp [Op.run?, insert?, Op.onSet, hs.contains?_eq hop, hdecide]
    · rw [has_insert hs hop, h.has_iff_mem, Op.onSet, Finset.mem_union, Finset.mem_singleton,
        or_comm]
  | contains i =>
    refine ⟨s, ?_, h⟩
    simp [Op.run?, Op.onSet, hs.contains?_eq hop, hdecide]
  | fill =>
    refine ⟨s.fill, rfl, hs.fill, h.fits, fun j => ?_⟩
    rw [has_fill hs, Op.onSet, Finset.mem_range]
  | clear start stop =>
    refine ⟨(s.clear start stop).1, ?_, hs.clear start stop, h.fits, fun j => ?_⟩
    · have hcomplete := hs.clear_complete start hop.2
      rw [Op.run?, ← Prod.mk.eta (p := s.clear start stop), hcomplete]
      rfl
    · rw [has_clear, h.has_iff_mem, Op.onSet, Finset.mem_sdiff, Finset.mem_Ico]
  | count =>
    refine ⟨s, ?_, h⟩
    have hcard : s.count = S.card := by
      rw [count_eq_card hs]
      congr 1
      ext i
      rw [Finset.mem_filter, Finset.mem_range, h.has_iff_mem, and_iff_right_iff_imp]
      exact fun hi => hs.lt_of_has i ((h.has_iff_mem i).2 hi)
    rw [Op.run?, Op.onSet, hcard]
  | members start stop =>
    refine ⟨s, ?_, h⟩
    rw [Op.run?, Op.onSet, members?_eq hs h.fits hop.1 hop.2, h.sort_inter, Option.map_some]

end Represents

end Step

/-! ## Sequences of operations -/

/-- What one operation keeps, a sequence keeps. -/
theorem Represents.runAll? {s : Bitset} {n : Nat} {S : Finset Nat} (h : s.Represents n S)
    {ops : List Op} (hops : ∀ op ∈ ops, op.Within n) :
    ∃ s', s.runAll? ops = some (s', (onSets n S ops).2) ∧
      s'.Represents n (onSets n S ops).1 := by
  induction ops generalizing s S with
  | nil => exact ⟨s, rfl, h⟩
  | cons op ops ih =>
    rw [List.forall_mem_cons] at hops
    obtain ⟨s₁, hstep, h₁⟩ := h.run? hops.1
    obtain ⟨s₂, hrest, h₂⟩ := ih h₁ hops.2
    refine ⟨s₂, ?_, h₂⟩
    simp only [Bitset.runAll?, hstep, Option.bind_eq_bind, Option.bind_some, hrest]
    rfl

theorem exists_new [Memory.Allocator] {n : Nat}
    (hfits : Memory.fits (wordCount n) Memory.wordBytes) :
    ∃ s, Bitset.new n = .ok s ∧ s.Represents n ∅ := by
  have hnew : Bitset.new n = .ok ⟨Array.replicate (wordCount n) 0, n⟩ := by
    rw [Bitset.new, Memory.reserve_eq_ok_iff.2 hfits]
    rfl
  obtain ⟨hsized, hempty⟩ := new_spec hnew
  refine ⟨_, hnew, hsized, ?_, fun i => by simp [hempty i]⟩
  have hsize := Memory.le_addressSpace_of_fits hfits
  simp only [wordCount, wordBits, Memory.wordBytes, Memory.addressSpace, wordLimit] at *
  omega

/-- A bitset that is used on numbers below its size, and on ranges that end there or before, behaves
    as a finite set: from a new set on, whatever the sequence of operations, none of them leaves the
    words, each answers what it answers on the finite set, and the words always represent it. So an
    insertion says whether the number is new, the count is the number of members, and a range is
    walked through in ascending order and to its end. -/
theorem behaves_as_set [Memory.Allocator] {n : Nat}
    (hfits : Memory.fits (wordCount n) Memory.wordBytes) {ops : List Op}
    (hops : ∀ op ∈ ops, op.Within n) :
    ∃ s s', Bitset.new n = .ok s ∧ s.runAll? ops = some (s', (onSets n ∅ ops).2) ∧
      s'.Represents n (onSets n ∅ ops).1 := by
  obtain ⟨s, hnew, hempty⟩ := exists_new hfits
  obtain ⟨s', hrun, h⟩ := hempty.runAll? hops
  exact ⟨s, s', hnew, hrun, h⟩

/-- Operations that cross the border between two words. -/
def acrossWords : List Op :=
  [.insert 63, .insert 64, .insert 64, .clear 60 64, .contains 63, .members 10 70, .count]

theorem behaves_as_set_acrossWords :
    ∃ s s', Bitset.new 70 = .ok s ∧
      s.runAll? acrossWords = some (s', [.flag true, .flag true, .flag false, .done, .flag false,
        .list [64], .number 1]) ∧
      s'.Represents 70 {64} := by
  have hops : ∀ op ∈ acrossWords, op.Within 70 := by decide
  obtain ⟨s, s', hnew, hrun, h⟩ := behaves_as_set (by decide) hops
  have hset : onSets 70 ∅ acrossWords = ({64}, [.flag true, .flag true, .flag false, .done,
      .flag false, .list [64], .number 1]) := by
    decide +kernel
  rw [hset] at hrun h
  exact ⟨s, s', hnew, hrun, h⟩

end Superstep.Bitset
