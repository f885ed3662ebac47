import Superstep.Storage.Paged

/-!
# Disjoint views of a paged array

`PagedArray.split` hands out one view per range of indices. A view consists of the stretches of
pages that its range covers (`Segment`), and is used with the indices of the array. Views of
disjoint ranges never share an element, so that each may be written by a worker of its own.

The ranges have to be in ascending order and must not overlap. One pass over the pages cuts them
up: a stretch that lies before the current range is skipped, and the current range is left when
its end has been reached.

Main statement: `position?_of_not_mem`, a view has no element outside its range.
-/

namespace Superstep

/-- `length` elements of a page from `first` on. -/
structure Segment where
  page : Nat
  first : Nat
  length : Nat
deriving DecidableEq

/-- A view of the elements of an array with indices in `[start, stop)`. -/
structure PagedView where
  start : Nat
  stop : Nat
  shift : Nat
  segments : Array Segment
deriving DecidableEq

namespace PagedView

/-- Where the view finds the element with index `i`: its page and its index there. -/
def position? (v : PagedView) (i : Nat) : Option (Nat × Nat) :=
  if v.start ≤ i && i < v.stop then
    let number := i / PagedArray.fullPage v.shift - v.start / PagedArray.fullPage v.shift
    let offset := if number = 0 then i - v.start else i % PagedArray.fullPage v.shift
    match v.segments[number]? with
    | some s => if offset < s.length then some (s.page, s.first + offset) else none
    | none => none
  else none

/-- Cuts up what follows the first `used` elements of a page. `pending` are the views that are still
    to be filled, the current one first, and `filled` those that are complete. -/
def cutPage (shift page used rest : Nat) (filled pending : List PagedView) :
    List PagedView × List PagedView :=
  if rest = 0 then (filled, pending)
  else
    let offset := page * PagedArray.fullPage shift + used
    match pending with
    | [] => (filled, [])
    | v :: vs =>
      if v.stop ≤ offset then cutPage shift page used rest (filled ++ [v]) vs
      else if offset < v.start then
        let gap := min (v.start - offset) rest
        cutPage shift page (used + gap) (rest - gap) filled (v :: vs)
      else
        let taken := min (v.stop - offset) rest
        cutPage shift page (used + taken) (rest - taken) filled
          ({ v with segments := v.segments.push ⟨page, used, taken⟩ } :: vs)
termination_by rest + pending.length

/-- Cuts up pages with the given lengths, from page number `page` on. -/
def cutPages (shift : Nat) : Nat → List Nat → List PagedView → List PagedView → List PagedView
  | _, [], filled, pending => filled ++ pending
  | page, length :: lengths, filled, pending =>
    let (filled, pending) := cutPage shift page 0 length filled pending
    cutPages shift (page + 1) lengths filled pending

theorem position?_of_not_mem {v : PagedView} {i : Nat} (h : ¬ (v.start ≤ i ∧ i < v.stop)) :
    v.position? i = none := by
  unfold position?
  simp only [Bool.and_eq_true, decide_eq_true_eq, if_neg h]

end PagedView

namespace PagedArray

variable {α : Type}

/-- One view per range. -/
def split (a : PagedArray α) (ranges : List (Nat × Nat)) : List PagedView :=
  PagedView.cutPages a.shift 0 (a.pages.toList.map Array.size) []
    (ranges.map fun (start, stop) => ⟨start, stop, a.shift, #[]⟩)

/-- The element with index `i`, read through a view. -/
def viewGet? (a : PagedArray α) (v : PagedView) (i : Nat) : Option α :=
  (v.position? i).bind fun (page, offset) => (a.pages[page]?).bind (·[offset]?)

/-- Writes the element with index `i` through a view, if the view has it. -/
def viewSet (a : PagedArray α) (v : PagedView) (i : Nat) (x : α) : PagedArray α :=
  match v.position? i with
  | some (page, offset) => a.setAt page offset x
  | none => a

/-- Writes the element with index `i` through a view; refused if the view does not have it. -/
def viewSet? (a : PagedArray α) (v : PagedView) (i : Nat) (x : α) : Option (PagedArray α) :=
  (v.position? i).map fun _ => a.viewSet v i x

end PagedArray

end Superstep
