import Superstep.Storage.Memory

/-!
# Paged arrays

A `PagedArray` keeps its elements in pages of `2 ^ shift` elements; the last page may be shorter.
Element `i` is at `i % 2 ^ shift` in page `i / 2 ^ shift`. The table of pages and each page are
reserved before they are filled, so that an array that is too large is an ordinary error.

Main statements: `get?_of_size_le`, there is no element at or after the size; `size_set?` and
`size_modify`, no write changes the size.
-/

namespace Superstep

/-- An array of `size` elements in pages of `2 ^ shift`. -/
structure PagedArray (α : Type) where
  pages : Array (Array α)
  size : Nat
  shift : Nat

namespace PagedArray

variable {α : Type}

/-- The length of a full page: `2 ^ shift`. -/
def fullPage (shift : Nat) : Nat := 1 <<< shift

theorem fullPage_pos (shift : Nat) : 0 < fullPage shift := by
  rw [fullPage, Nat.one_shiftLeft]
  exact Nat.two_pow_pos shift

/-- The number of elements of a full page. -/
def pageSize (a : PagedArray α) : Nat := fullPage a.shift

/-- The shift of arrays that do not ask for another one. -/
def defaultShift : Nat := 14

/-- The number of pages that hold `size` elements. -/
def pageCount (size shift : Nat) : Nat := (size + (fullPage shift - 1)) / fullPage shift

/-- The elements of page number `page`, filled by `init`. -/
def newPage [Memory.Allocator] (size shift : Nat) (init : Nat → α) (page : Nat) :
    Except AllocationError (Array α) := do
  let base := page * fullPage shift
  let length := min (fullPage shift) (size - base)
  Memory.reserve length Memory.wordBytes
  return ((List.range length).map fun i => init (base + i)).toArray

/-- The first `count` pages, made one after the other. -/
def newPages [Memory.Allocator] (size shift : Nat) (init : Nat → α) (count : Nat) :
    Except AllocationError (Array (Array α)) :=
  (List.range count).foldlM
    (fun pages page => do return pages.push (← newPage size shift init page)) #[]

/-- Reserves an array and fills element `i` with `init i`. -/
def new [Memory.Allocator] (size shift : Nat) (init : Nat → α) :
    Except AllocationError (PagedArray α) := do
  Memory.reserve (pageCount size shift) Memory.pairBytes
  let pages ← newPages size shift init (pageCount size shift)
  return ⟨pages, size, shift⟩

/-- The element at `i`. -/
def get? (a : PagedArray α) (i : Nat) : Option α :=
  if i < a.size then (a.pages[i / a.pageSize]?).bind (·[i % a.pageSize]?) else none

/-- Writes an element of a page. -/
def setAt (a : PagedArray α) (page i : Nat) (x : α) : PagedArray α :=
  { a with pages := a.pages.modify page (·.setIfInBounds i x) }

/-- Changes the element at `i`, if there is one. -/
def modify (a : PagedArray α) (i : Nat) (f : α → α) : PagedArray α :=
  if i < a.size then
    let page := i / a.pageSize
    let offset := i % a.pageSize
    { a with pages := a.pages.modify page (·.modify offset f) }
  else a

/-- Writes the element at `i`; refused at or after the size. -/
def set? (a : PagedArray α) (i : Nat) (x : α) : Option (PagedArray α) :=
  if i < a.size then some (a.setAt (i / a.pageSize) (i % a.pageSize) x) else none

/-- All elements in the order of their indices. -/
def toList (a : PagedArray α) : List α := (a.pages.toList.map Array.toList).flatten

theorem get?_of_size_le {a : PagedArray α} {i : Nat} (h : a.size ≤ i) : a.get? i = none := by
  simp [get?, Nat.not_lt.2 h]

theorem size_set? {a b : PagedArray α} {i : Nat} {x : α} (h : a.set? i x = some b) :
    b.size = a.size := by
  unfold set? at h
  split at h
  · cases h
    rfl
  · cases h

@[simp] theorem size_modify (a : PagedArray α) (i : Nat) (f : α → α) :
    (a.modify i f).size = a.size := by
  unfold modify
  split <;> rfl

end PagedArray

end Superstep
