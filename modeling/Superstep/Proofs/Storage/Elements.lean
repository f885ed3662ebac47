import Mathlib.Algebra.Order.Floor.Div
import Superstep.Proofs.Storage.Writes
import Superstep.Word

/-!
# Paged arrays, one element after the other

`PagedArray.new` says what a new array holds. Here an array is filled the way it is used: the
elements are asked for one after the other by calls that may change a state (`fill`), sizes and
positions are words that are shifted and masked, every access to a page is checked, and memory is
granted by any allocator. `none` and `Stop.overflow` are a number that is no word or a position that
does not exist.

Results:
* `fill_eq_new`: with calls that change nothing, and the limit of `Memory`, this is `new`.
* `Shaped.read?_eq`, `Shaped.put?_eq`: shifting and masking finds the element of an index.
* `fill_spec`: if all memory is granted, the elements are asked for once each, in order.
* `filled_as_array`: all that an array is used for.
-/

namespace Superstep.PagedArray

variable {σ α : Type}

/-! ## Filling an array -/

/-- What stops the filling of an array. -/
inductive Stop where
  /-- A size or a position is no word. -/
  | overflow
  | refused (e : AllocationError)
deriving DecidableEq

/-- A number that has to be a word. -/
def word : Option UInt64 → Except Stop UInt64
  | some w => .ok w
  | none => .error .overflow

/-- Asks an allocator for `count` elements of `bytes` bytes each. -/
def ask (grants : Nat → Nat → Bool) (count : UInt64) (bytes : Nat) : Except Stop Unit :=
  if grants count.toNat bytes then .ok () else .error (.refused ⟨count.toNat⟩)

/-- The size of a full page as a word. -/
def pageWord (shift : Nat) : UInt64 := 1 <<< shift.toUInt64

/-- The words from `start` up to `stop`, in ascending order. -/
def wordsFrom (start stop : UInt64) : List UInt64 :=
  (List.range' start.toNat (stop.toNat - start.toNat)).map Nat.toUInt64

section

variable (grants : Nat → Nat → Bool) (bytes : Nat) (size : UInt64) (shift : Nat)
  (init : UInt64 → StateM σ α)

/-- Fills the page with number `page`, which starts at a multiple of the size of a full page. -/
def fillPage (page : Nat) (s : σ) : Except Stop (Array α × σ) := do
  let base := page.toUInt64 <<< shift.toUInt64
  let rest ← word (Word.sub? size base)
  let length := min (pageWord shift) rest
  ask grants length bytes
  let stop ← word (Word.add? base length)
  let (elements, s) := ((wordsFrom base stop).mapM init).run s
  return (elements.toArray, s)

/-- Fills pages one after the other. -/
def fillPages (count : Nat) (s : σ) : Except Stop (Array (Array α) × σ) :=
  (List.range count).foldlM (fun (pages, s) number => do
    let (page, s) ← fillPage grants bytes size shift init number s
    return (pages.push page, s)) (#[], s)

/-- Fills an array of `size` elements of `bytes` bytes each. The number of pages is the quotient of
    the sizes, and one more if there is a rest. -/
def fill (s : σ) : Except Stop (PagedArray α × σ) := do
  let full ← word (Word.div? size (pageWord shift))
  let count ← word (Word.add? full (if size % pageWord shift = 0 then 0 else 1))
  ask grants count Memory.pairBytes
  let (pages, s) ← fillPages grants bytes size shift init count.toNat s
  return (⟨pages, size.toNat, shift⟩, s)

end

/-- All memory is granted that an array of `size` elements asks for. -/
structure Granted (grants : Nat → Nat → Bool) (bytes size shift : Nat) : Prop where
  table : grants (pageCount size shift) Memory.pairBytes
  pages : ∀ p < pageCount size shift,
    grants (min (fullPage shift) (size - p * fullPage shift)) bytes

/-! ## Words -/

section

variable {size : UInt64} {shift page : Nat}

theorem toNat_toUInt64_shift (hshift : shift < 64) : shift.toUInt64.toNat % 64 = shift := by
  rw [toNat_toUInt64 (hshift.trans (by decide)), Nat.mod_eq_of_lt hshift]

theorem fullPage_lt (hshift : shift < 64) : fullPage shift < wordLimit := by
  rw [fullPage, Nat.one_shiftLeft]
  exact Nat.pow_lt_pow_right (by decide) hshift

theorem toNat_pageWord (hshift : shift < 64) : (pageWord shift).toNat = fullPage shift := by
  rw [pageWord, UInt64.toNat_shiftLeft, toNat_toUInt64_shift hshift]
  exact Nat.mod_eq_of_lt (fullPage_lt hshift)

theorem mul_fullPage_lt {n : Nat} (h : page < pageCount n shift) : page * fullPage shift < n := by
  have hpos := fullPage_pos shift
  rw [pageCount, Nat.lt_div_iff_mul_lt hpos] at h
  omega

theorem toNat_base (hshift : shift < 64) (hpage : page < pageCount size.toNat shift) :
    (page.toUInt64 <<< shift.toUInt64).toNat = page * fullPage shift := by
  have hlt := (mul_fullPage_lt hpage).trans size.toNat_lt
  have hnumber : page < wordLimit :=
    (Nat.le_mul_of_pos_right page (fullPage_pos shift)).trans_lt hlt
  rw [UInt64.toNat_shiftLeft, toNat_toUInt64 hnumber, toNat_toUInt64_shift hshift,
    Nat.shiftLeft_eq, ← Nat.one_shiftLeft]
  exact Nat.mod_eq_of_lt hlt

/-- The number of pages is the quotient of the sizes, and one more if there is a rest. -/
theorem pageCount_eq (n shift : Nat) :
    pageCount n shift = n / fullPage shift + if n % fullPage shift = 0 then 0 else 1 := by
  have hpos := fullPage_pos shift
  have hlt := Nat.mod_lt n hpos
  have hsplit : n + (fullPage shift - 1) =
      fullPage shift * (n / fullPage shift) + (n % fullPage shift + (fullPage shift - 1)) := by
    rw [← Nat.add_assoc, Nat.div_add_mod]
  rw [pageCount, hsplit, Nat.mul_add_div hpos]
  split_ifs with hrest
  · have hnone : (fullPage shift - 1) / fullPage shift = 0 := Nat.div_eq_of_lt (by omega)
    rw [hrest, Nat.zero_add, hnone]
  · have hlast : n % fullPage shift + (fullPage shift - 1) =
        fullPage shift * 1 + (n % fullPage shift - 1) := by omega
    have hnone : (n % fullPage shift - 1) / fullPage shift = 0 := Nat.div_eq_of_lt (by omega)
    rw [hlast, Nat.mul_add_div hpos, hnone]

/-- The number of pages is computed within words. -/
theorem exists_count (hshift : shift < 64) (size : UInt64) : ∃ full count : UInt64,
    Word.div? size (pageWord shift) = some full ∧
      Word.add? full (if size % pageWord shift = 0 then 0 else 1) = some count ∧
      count.toNat = pageCount size.toNat shift := by
  have hpage := toNat_pageWord hshift
  have hpos := fullPage_pos shift
  have hne : pageWord shift ≠ 0 := by
    intro hzero
    rw [hzero, UInt64.toNat_zero] at hpage
    omega
  have hone : (if size % pageWord shift = 0 then (0 : UInt64) else 1).toNat =
      if size.toNat % fullPage shift = 0 then 0 else 1 := by
    have hrest : size % pageWord shift = 0 ↔ size.toNat % fullPage shift = 0 := by
      rw [← UInt64.toNat_inj, UInt64.toNat_mod, hpage, UInt64.toNat_zero]
    simp only [hrest]
    split <;> rfl
  have hsum : (size / pageWord shift).toNat +
      (if size % pageWord shift = 0 then (0 : UInt64) else 1).toNat =
        pageCount size.toNat shift := by
    rw [hone, UInt64.toNat_div, hpage, pageCount_eq]
  have hlt : pageCount size.toNat shift < wordLimit := by
    have hsize := toNat_lt_wordLimit size
    rw [pageCount_eq]
    split_ifs with hrest
    · exact (Nat.div_le_self _ _).trans_lt hsize
    · -- there is a rest, so that a page has more than one element
      have htwo : 2 ≤ fullPage shift := by
        by_contra hsmall
        have : fullPage shift = 1 := by omega
        exact hrest (this ▸ Nat.mod_one _)
      have := Nat.div_le_div_left htwo (by decide : 0 < 2) (a := size.toNat)
      unfold wordLimit at *
      omega
  refine ⟨_, _, Word.div?_of_ne hne, Word.add?_of_lt (hsum ▸ hlt), ?_⟩
  rw [Word.toNat_add_of_lt (hsum ▸ hlt), hsum]

theorem wordsFrom_eq {start stop : UInt64} {first length : Nat} (hstart : start.toNat = first)
    (hstop : stop.toNat = first + length) :
    wordsFrom start stop = (List.range' first length).map Nat.toUInt64 := by
  rw [wordsFrom, hstart, hstop, Nat.add_sub_cancel_left]

end

/-! ## Pages -/

section

variable {grants : Nat → Nat → Bool} {bytes : Nat} {size : UInt64} {shift page : Nat}

/-- The results of the calls about `length` indices from `first` on. -/
def asked (init : UInt64 → StateM σ α) (first length : Nat) (s : σ) : List α × σ :=
  (((List.range' first length).map Nat.toUInt64).mapM init).run s

theorem asked_append (init : UInt64 → StateM σ α) (first length more : Nat) (s : σ) :
    asked init first (length + more) s =
      ((asked init first length s).1 ++
        (asked init (first + length) more (asked init first length s).2).1,
        (asked init (first + length) more (asked init first length s).2).2) := by
  unfold asked
  rw [← List.range'_append_1, List.map_append, List.mapM_append]
  rfl

theorem length_asked (init : UInt64 → StateM σ α) (first length : Nat) (s : σ) :
    (asked init first length s).1.length = length := by
  induction length generalizing first s with
  | zero => rfl
  | succ length ih =>
    rw [Nat.add_comm, asked_append, List.length_append, ih]
    rfl

/-- The elements of a page, and the state after it has been filled. -/
theorem fillPage_eq (grants : Nat → Nat → Bool) (bytes : Nat) (hshift : shift < 64)
    (hpage : page < pageCount size.toNat shift) (init : UInt64 → StateM σ α) (s : σ) :
    let length := min (fullPage shift) (size.toNat - page * fullPage shift)
    fillPage grants bytes size shift init page s =
      if grants length bytes then
        let (xs, s) := asked init (page * fullPage shift) length s
        .ok (xs.toArray, s)
      else .error (.refused ⟨length⟩) := by
  intro length
  have hbase := toNat_base hshift hpage
  have hlt := mul_fullPage_lt hpage
  set base := page.toUInt64 <<< shift.toUInt64 with hbase'
  have hle : base ≤ size := by
    rw [UInt64.le_iff_toNat_le, hbase]
    exact hlt.le
  have hlength : (min (pageWord shift) (size - base)).toNat = length := by
    rw [UInt64.toNat_min, toNat_pageWord hshift, UInt64.toNat_sub_of_le _ _ hle, hbase]
  have hsum : base.toNat + (min (pageWord shift) (size - base)).toNat < wordLimit := by
    have := toNat_lt_wordLimit size
    rw [hbase, hlength]
    omega
  have hstop : (base + min (pageWord shift) (size - base)).toNat =
      page * fullPage shift + length := by
    rw [Word.toNat_add_of_lt hsum, hbase, hlength]
  simp only [fillPage, ← hbase', Word.sub?_of_le hle, Word.add?_of_lt hsum, word, ask, hlength,
    wordsFrom_eq hbase hstop, bind, Except.bind, pure, Except.pure]
  cases grants length bytes <;> rfl

/-- The array of pages is filled to a state in which the indices below have been asked for. -/
structure FilledTo (init : UInt64 → StateM σ α) (size shift count : Nat) (s : σ)
    (pages : Array (Array α)) (s' : σ) : Prop where
  size_eq : pages.size = count
  page_eq : ∀ p page, pages[p]? = some page →
    page.size = min (fullPage shift) (size - p * fullPage shift)
  elements : asked init 0 (min (count * fullPage shift) size) s =
    ((pages.toList.map Array.toList).flatten, s')

/-- If their memory is granted, pages are filled one after the other. -/
theorem exists_fillPages (hshift : shift < 64) (hgranted : Granted grants bytes size.toNat shift)
    (init : UInt64 → StateM σ α) (s : σ) {count : Nat}
    (hcount : count ≤ pageCount size.toNat shift) :
    ∃ pages s', fillPages grants bytes size shift init count s = .ok (pages, s') ∧
      FilledTo init size.toNat shift count s pages s' := by
  unfold fillPages
  induction count with
  | zero =>
    refine ⟨#[], s, rfl, rfl, fun p page hpage => by simp at hpage, ?_⟩
    rw [Nat.zero_mul, Nat.zero_min]
    rfl
  | succ count ih =>
    obtain ⟨pages, s₁, hpages, hfilled⟩ := ih (Nat.le_of_succ_le hcount)
    have hlt := mul_fullPage_lt hcount
    set length := min (fullPage shift) (size.toNat - count * fullPage shift) with hlength
    obtain ⟨xs, s₂, hasked⟩ : ∃ xs s₂,
        asked init (count * fullPage shift) length s₁ = (xs, s₂) := ⟨_, _, rfl⟩
    have hxs : xs.length = length := by
      rw [← length_asked init (count * fullPage shift) length s₁, hasked]
    have hpage : fillPage grants bytes size shift init count s₁ = .ok (xs.toArray, s₂) := by
      have := fillPage_eq grants bytes hshift hcount init s₁
      dsimp only at this
      rw [if_pos (hgranted.pages count hcount), hasked] at this
      exact this
    refine ⟨pages.push xs.toArray, s₂, ?_, ?_⟩
    · rw [List.range_succ, List.foldlM_append, hpages]
      simp [hpage, bind, Except.bind, pure, Except.pure]
    · refine ⟨by rw [Array.size_push, hfilled.size_eq], fun p page hp => ?_, ?_⟩
      · rw [Array.getElem?_push, hfilled.size_eq] at hp
        split_ifs at hp with hpcount
        · rw [← Option.some.inj hp, hpcount, List.size_toArray, hxs]
        · exact hfilled.page_eq p page hp
      · have hbefore : min (count * fullPage shift) size.toNat = count * fullPage shift :=
          Nat.min_eq_left hlt.le
        have hnext : min ((count + 1) * fullPage shift) size.toNat =
            count * fullPage shift + length := by
          rw [Nat.succ_mul]
          omega
        have helements := hfilled.elements
        rw [hbefore] at helements
        rw [hnext, asked_append, helements, Nat.zero_add, hasked]
        simp

/-- If all memory is granted, an array is filled: its elements are what the calls about its indices
    give, one after the other. -/
theorem fill_spec (hshift : shift < 64) (hgranted : Granted grants bytes size.toNat shift)
    (init : UInt64 → StateM σ α) (s : σ) :
    ∃ a s', fill grants bytes size shift init s = .ok (a, s') ∧
      a.Shaped size.toNat ∧ a.shift = shift ∧ asked init 0 size.toNat s = (a.toList, s') := by
  obtain ⟨full, count, hfull, hsum, hcount⟩ := exists_count hshift size
  obtain ⟨pages, s', hpages, hfilled⟩ :=
    exists_fillPages hshift hgranted init s (le_refl (pageCount size.toNat shift))
  have hall := le_pageCount_mul size.toNat shift
  refine ⟨⟨pages, size.toNat, shift⟩, s', ?_, ⟨rfl, hfilled.size_eq, hfilled.page_eq⟩, rfl, ?_⟩
  · simp only [fill, hfull, hsum, word, ask, hcount, hgranted.table, hpages, bind, Except.bind,
      pure, Except.pure, ↓reduceIte]
  · have helements := hfilled.elements
    rw [Nat.min_eq_right hall] at helements
    exact helements

end

/-! ## Calls that change nothing -/

section

variable {size : UInt64} {shift : Nat}

/-- What an allocation comes to while an array is filled in the state `s`. -/
def passing {β : Type} (s : σ) : Except AllocationError β → Except Stop (β × σ)
  | .ok x => .ok (x, s)
  | .error e => .error (.refused e)

theorem asked_pure (f : UInt64 → α) (first length : Nat) (s : σ) :
    asked (fun i => pure (f i)) first length s =
      ((List.range length).map fun i => f (first + i).toUInt64, s) := by
  unfold asked
  rw [List.mapM_pure, List.map_map, List.range'_eq_map_range, List.map_map]
  rfl

theorem fillPage_eq_newPage [Memory.Allocator] (hshift : shift < 64) {page : Nat}
    (hpage : page < pageCount size.toNat shift) (f : UInt64 → α) (s : σ) :
    fillPage Memory.fits Memory.wordBytes size shift (fun i => pure (f i)) page s =
      passing s (newPage size.toNat shift (fun i => f i.toUInt64) page) := by
  rw [fillPage_eq _ _ hshift hpage, asked_pure, newPage, Memory.reserve]
  dsimp only
  split <;> rfl

theorem fillPages_eq_newPages [Memory.Allocator] (hshift : shift < 64) (f : UInt64 → α) (s : σ)
    {count : Nat} (hcount : count ≤ pageCount size.toNat shift) :
    fillPages Memory.fits Memory.wordBytes size shift (fun i => pure (f i)) count s =
      passing s (newPages size.toNat shift (fun i => f i.toUInt64) count) := by
  unfold fillPages newPages
  induction count with
  | zero => rfl
  | succ count ih =>
    rw [List.range_succ, List.foldlM_append, List.foldlM_append, ih (Nat.le_of_succ_le hcount)]
    generalize (List.range count).foldlM (m := Except AllocationError) _ _ = earlier
    cases earlier with
    | error e => rfl
    | ok pages =>
      simp only [passing, bind, Except.bind, List.foldlM_cons, List.foldlM_nil,
        fillPage_eq_newPage hshift hcount]
      cases newPage size.toNat shift (fun i => f i.toUInt64) count <;> rfl

/-- With the limits of `Memory` and calls that change nothing, filling an array is making it. -/
theorem fill_eq_new [Memory.Allocator] (hshift : shift < 64) (f : UInt64 → α) (s : σ) :
    fill Memory.fits Memory.wordBytes size shift (fun i => pure (f i)) s =
      passing s (PagedArray.new size.toNat shift fun i => f i.toUInt64) := by
  obtain ⟨full, count, hfull, hsum, hcount⟩ := exists_count hshift size
  simp only [fill, PagedArray.new, Memory.reserve, hfull, hsum, word, ask, hcount, bind,
    Except.bind, fillPages_eq_newPages hshift f s le_rfl]
  cases Memory.fits (pageCount size.toNat shift) Memory.pairBytes with
  | false => rfl
  | true =>
    cases newPages size.toNat shift (fun i => f i.toUInt64) (pageCount size.toNat shift) <;> rfl

end

/-! ## Reading and writing -/

/-- Reads the element at `i`, in the page and at the position that are found by shifting and
    masking. -/
def read? (a : PagedArray α) (i : UInt64) : Option (Option α) :=
  if i.toNat < a.size then do
    let mask ← Word.sub? (pageWord a.shift) 1
    let page ← a.pages[(i >>> a.shift.toUInt64).toNat]?
    let x ← page[(i &&& mask).toNat]?
    return some x
  else some none

/-- Writes the element at `i`, if the array has it, in the same place. -/
def put? (a : PagedArray α) (i : UInt64) (x : α) : Option (Option (PagedArray α)) :=
  if i.toNat < a.size then do
    let mask ← Word.sub? (pageWord a.shift) 1
    let page ← a.pages[(i >>> a.shift.toUInt64).toNat]?
    if (i &&& mask).toNat < page.size then
      return some (a.setAt (i >>> a.shift.toUInt64).toNat (i &&& mask).toNat x)
    else none
  else some none

/-- Writes one after the other. A write to an index that the array does not have does nothing. -/
def putAll? (a : PagedArray α) (writes : List (UInt64 × α)) : Option (PagedArray α) :=
  writes.foldlM (fun b w => do
    let written ← b.put? w.1 w.2
    return written.getD b) a

/-- Writes to the array itself, which counts as its only view. -/
def puts (writes : List (UInt64 × α)) : List (Write α) :=
  writes.map fun w => ⟨0, w.1.toNat, w.2⟩

section

variable {a b : PagedArray α} {n : Nat}

/-- Shifting finds the page of an index, and masking its place there. -/
theorem place_eq {shift : Nat} (hshift : shift < 64) (i : UInt64) :
    Word.sub? (pageWord shift) 1 = some (pageWord shift - 1) ∧
      (i >>> shift.toUInt64).toNat = i.toNat / fullPage shift ∧
      (i &&& (pageWord shift - 1)).toNat = i.toNat % fullPage shift := by
  have hpage := toNat_pageWord hshift
  have hone : (1 : UInt64) ≤ pageWord shift := by
    rw [UInt64.le_iff_toNat_le, hpage]
    exact fullPage_pos shift
  refine ⟨Word.sub?_of_le hone, ?_, ?_⟩
  · rw [UInt64.toNat_shiftRight, toNat_toUInt64_shift hshift, Nat.shiftRight_eq_div_pow, fullPage,
      Nat.one_shiftLeft]
  · rw [UInt64.toNat_and, UInt64.toNat_sub_of_le _ _ hone, hpage, fullPage, Nat.one_shiftLeft]
    exact Nat.and_two_pow_sub_one_eq_mod ..

/-- Reading never leaves the pages, and finds the element of the index. -/
theorem Shaped.read?_eq (h : a.Shaped n) (hshift : a.shift < 64) (i : UInt64) :
    a.read? i = some (a.get? i.toNat) := by
  obtain ⟨hmask, hnumber, hoffset⟩ := place_eq hshift i
  unfold read? get?
  split
  · next hi =>
    obtain ⟨page, x, hpage, hx⟩ := h.exists_slot (h.size_eq ▸ hi)
    unfold pageSize at hpage hx ⊢
    simp only [hmask, hnumber, hoffset, hpage, hx, Option.bind_eq_bind, Option.bind_some]
    rfl
  · rfl

/-- Writing never leaves the pages, and writes the element of the index. -/
theorem Shaped.put?_eq (h : a.Shaped n) (hshift : a.shift < 64) (i : UInt64) (x : α) :
    a.put? i x = some (a.set? i.toNat x) := by
  obtain ⟨hmask, hnumber, hoffset⟩ := place_eq hshift i
  unfold put? set?
  split
  · next hi =>
    obtain ⟨page, y, hpage, hy⟩ := h.exists_slot (h.size_eq ▸ hi)
    have hlt := (Array.getElem?_eq_some_iff.1 hy).1
    unfold pageSize at hpage hlt ⊢
    simp only [hmask, hnumber, hoffset, hpage, hlt, Option.bind_eq_bind, Option.bind_some,
      ↓reduceIte]
    rfl
  · rfl

theorem Shaped.isSome_get?_iff (h : a.Shaped n) {i : Nat} : (a.get? i).isSome ↔ i < n := by
  constructor
  · intro hsome
    by_contra hi
    rw [h.get?_of_le (Nat.not_lt.1 hi)] at hsome
    cases hsome
  · intro hi
    obtain ⟨x, hx⟩ := h.exists_get? hi
    rw [hx]
    rfl

theorem Shaped.isSome_set?_iff (h : a.Shaped n) {i : Nat} {x : α} :
    (a.set? i x).isSome ↔ i < n := by
  unfold set?
  rw [h.size_eq]
  split <;> simp_all

/-- One more write, which does nothing at or after the size. -/
theorem Written.set? {writes : List (Write α)} (h : a.Written n writes b) (i : Nat) (x : α) :
    a.Written n (writes ++ [⟨0, i, x⟩]) ((b.set? i x).getD b) := by
  have hsize := h.shaped.size_eq
  unfold PagedArray.set?
  split
  · next hi =>
    refine ⟨h.shaped.setAt .., h.shift_eq, fun j hj => ?_⟩
    rw [Option.getD_some, pageSize, get?_setAt h.shaped (hsize ▸ hi), Write.last?_append_singleton]
    split
    · rfl
    · exact h.get?_eq j hj
  · next hi =>
    refine ⟨h.shaped, h.shift_eq, fun j hj => ?_⟩
    rw [Option.getD_none, Write.last?_append_singleton, if_neg (by dsimp only; omega)]
    exact h.get?_eq j hj

/-- Writes never leave the pages, and leave behind what has been written last to each index. -/
theorem Shaped.exists_putAll? (ha : a.Shaped n) (hshift : a.shift < 64)
    (writes : List (UInt64 × α)) :
    ∃ b, a.putAll? writes = some b ∧ a.Written n (puts writes) b := by
  unfold putAll?
  induction writes using List.reverseRecOn with
  | nil => exact ⟨a, rfl, ha.written_nil⟩
  | append_singleton writes w ih =>
    obtain ⟨b, hrun, hb⟩ := ih
    have hput := hb.shaped.put?_eq (hb.shift_eq ▸ hshift) w.1 w.2
    refine ⟨(b.set? w.1.toNat w.2).getD b, ?_, ?_⟩
    · rw [List.foldlM_append, hrun]
      simp [hput]
    · rw [puts, List.map_append]
      exact hb.set? w.1.toNat w.2

end

/-! ## All uses -/

/-- An array of any size, in pages of any size that is a word, filled by calls that may change a
    state, if all memory is granted. It has as many pages as its elements need. The calls are made
    once for each index, in ascending order, and give its elements; with calls that change nothing
    and the allocator of `new` it is the array that `new` makes. After any writes each element is
    what has been written to it last, or what it was. Elements are read and written at the indices
    below the size and nowhere else, and what is read is the element in the list of all of them. -/
theorem filled_as_array [Memory.Allocator] {grants : Nat → Nat → Bool} {bytes : Nat}
    {size : UInt64} {shift : Nat} (hshift : shift < 64)
    (hgranted : Granted grants bytes size.toNat shift) (init : UInt64 → StateM σ α) (s : σ) :
    ∃ a s', fill grants bytes size shift init s = .ok (a, s') ∧
      a.pages.size = size.toNat ⌈/⌉ 2 ^ shift ∧
      ((wordsFrom 0 size).mapM init).run s = (a.toList, s') ∧ a.toList.length = size.toNat ∧
      (∀ f : UInt64 → α, grants = Memory.fits → bytes = Memory.wordBytes →
        init = (fun i => pure (f i)) →
        PagedArray.new size.toNat shift (fun i => f i.toUInt64) = .ok a) ∧
      ∀ writes : List (UInt64 × α), ∃ b, a.putAll? writes = some b ∧
        b.toList = a.toList.mapIdx (fun i x => (Write.last? (puts writes) i).getD x) ∧
        ∀ i : UInt64,
          (b.read? i = some (b.get? i.toNat) ∧ b.get? i.toNat = b.toList[i.toNat]? ∧
            ((b.get? i.toNat).isSome ↔ i < size)) ∧
          ∀ x : α,
            b.put? i x = some (b.set? i.toNat x) ∧ ((b.set? i.toNat x).isSome ↔ i < size) := by
  obtain ⟨a, s', hfill, hshaped, hshift', hasked⟩ := fill_spec hshift hgranted init s
  have hlength : a.toList.length = size.toNat := by
    rw [← length_asked init 0 size.toNat s, hasked]
  refine ⟨a, s', hfill, ?_, hasked, hlength, ?_, fun writes => ?_⟩
  · rw [hshaped.pages_eq, hshift', pageCount, fullPage, Nat.one_shiftLeft,
      Nat.ceilDiv_eq_add_pred_div, Nat.add_sub_assoc Nat.one_le_two_pow]
  · rintro f rfl rfl rfl
    rw [fill_eq_new hshift] at hfill
    unfold passing at hfill
    split at hfill
    · next hnew =>
      obtain ⟨rfl, -⟩ := Prod.mk.inj (Except.ok.inj hfill)
      exact hnew
    · cases hfill
  · have hshift'' : a.shift < 64 := hshift' ▸ hshift
    obtain ⟨b, hrun, hb⟩ := hshaped.exists_putAll? hshift'' writes
    have hbshift : b.shift < 64 := hb.shift_eq ▸ hshift''
    refine ⟨b, hrun, hb.toList_eq hshaped, fun i => ⟨⟨?_, ?_, ?_⟩, fun x => ⟨?_, ?_⟩⟩⟩
    · exact hb.shaped.read?_eq hbshift i
    · exact (hb.shaped.getElem?_toList i.toNat).symm
    · exact hb.shaped.isSome_get?_iff.trans UInt64.lt_iff_toNat_lt.symm
    · exact hb.shaped.put?_eq hbshift i x
    · exact hb.shaped.isSome_set?_iff.trans UInt64.lt_iff_toNat_lt.symm

/-- Eleven elements in pages of four, filled by calls that write down their indices. Index 6 is
    written twice, and index 11 is refused. Then the largest size of all in the largest pages, with
    elements that take no memory. -/
theorem filled_as_array_eleven :
    (∃ a calls, fill Memory.fits Memory.wordBytes 11 2
        (fun i calls => (10 * i, calls ++ [i]) : UInt64 → StateM (List UInt64) UInt64) [] =
          .ok (a, calls) ∧
      a.pages.size = 3 ∧ calls = [0, 1, 2, 3, 4, 5, 6, 7, 8, 9, 10] ∧
      ∃ b, a.putAll? [(6, 1), (11, 2), (3, 3), (6, 4)] = some b ∧
        b.toList = [0, 10, 20, 3, 40, 50, 4, 70, 80, 90, 100] ∧
        b.read? 10 = some (some 100) ∧ b.read? 11 = some none) ∧
    ∃ (a : PagedArray Unit) (s : Unit), fill (fun _ _ => true) 0 18446744073709551615 63
        (fun _ => pure ()) s = .ok (a, s) ∧ a.pages.size = 2 := by
  constructor
  · obtain ⟨a, calls, hfill, hpages, hcalls, -, -, hwrites⟩ :=
      @filled_as_array _ _ _ Memory.fits Memory.wordBytes 11 2 (by decide) ⟨by decide, by decide⟩
        (fun i calls => (10 * i, calls ++ [i])) []
    obtain ⟨helements, rfl⟩ := Prod.mk.inj hcalls
    obtain ⟨b, hrun, hlist, hread⟩ := hwrites [(6, 1), (11, 2), (3, 3), (6, 4)]
    have hlist : b.toList = [0, 10, 20, 3, 40, 50, 4, 70, 80, 90, 100] := by
      rw [hlist, ← helements]
      rfl
    refine ⟨a, _, hfill, hpages, rfl, b, hrun, hlist, ?_, ?_⟩
    · obtain ⟨⟨hten, hget, -⟩, -⟩ := hread 10
      rw [hten, hget, hlist]
      rfl
    · obtain ⟨⟨heleven, hget, -⟩, -⟩ := hread 11
      rw [heleven, hget, hlist]
      rfl
  · obtain ⟨a, s, hfill, hpages, -⟩ :=
      @filled_as_array Unit Unit _ (fun _ _ => true) 0 18446744073709551615 63 (by decide)
        ⟨rfl, fun _ _ => rfl⟩ (fun _ => pure ()) ()
    exact ⟨a, s, hfill, hpages⟩

end Superstep.PagedArray
