import Superstep.Proofs.Storage.View

/-!
# Writes through the views of a paged array

The views of ascending ranges share out the elements of an array. `PagedArray.writeAll?` performs
writes through them one after the other, and is refused as soon as a view does not have the element
that it is asked to write. `Written a n writes b` says what `b` is when it comes from `a` by
`writes`.

Results:
* `viewGet?_split`, `isSome_viewGet?_split`: a view has exactly the elements of its range.
* `exists_write?_split`, `write?_split_eq_none`: what one write does.
* `writeAll?_split`: writes are possible exactly if each of them stays in the range of its view.
* `Written.toList_eq`: the array then has, at every index, what has been written there last.
* `split_shares_out`: all of this for one list of ranges.
-/

namespace Superstep

/-- A write through the view with the given number. -/
structure Write (α : Type) where
  view : Nat
  index : Nat
  value : α

namespace Write

variable {α : Type}

/-- The value written last to `i`, if `i` has been written to. -/
def last? (writes : List (Write α)) (i : Nat) : Option α :=
  (writes.filter fun w => w.index = i).getLast?.map Write.value

/-- The write stays in the range of its view. -/
def InRange (ranges : List (Nat × Nat)) (w : Write α) : Prop :=
  ∃ r, ranges[w.view]? = some r ∧ r.1 ≤ w.index ∧ w.index < r.2

@[simp] theorem last?_nil (i : Nat) : last? ([] : List (Write α)) i = none := rfl

theorem last?_append_singleton (writes : List (Write α)) (w : Write α) (i : Nat) :
    last? (writes ++ [w]) i = if w.index = i then some w.value else last? writes i := by
  unfold last?
  rw [List.filter_append]
  split_ifs with hi
  · simp [hi]
  · simp [hi]

end Write

namespace PagedArray

variable {α : Type}

/-- One write through one of the views. -/
def write? (a : PagedArray α) (views : List PagedView) (w : Write α) : Option (PagedArray α) :=
  (views[w.view]?).bind fun v => a.viewSet? v w.index w.value

/-- Writes through the views, one after the other. -/
def writeAll? (a : PagedArray α) (views : List PagedView) (writes : List (Write α)) :
    Option (PagedArray α) :=
  writes.foldlM (fun b w => b.write? views w) a

theorem writeAll?_append_singleton (a : PagedArray α) (views : List PagedView)
    (writes : List (Write α)) (w : Write α) :
    a.writeAll? views (writes ++ [w]) = (a.writeAll? views writes).bind (·.write? views w) := by
  unfold writeAll?
  rw [List.foldlM_append]
  apply congrArg
  funext b
  simp

/-- What `a` has become by `writes`. -/
structure Written (a : PagedArray α) (n : Nat) (writes : List (Write α)) (b : PagedArray α) :
    Prop where
  shaped : b.Shaped n
  shift_eq : b.shift = a.shift
  get?_eq : ∀ i < n, b.get? i = (Write.last? writes i).or (a.get? i)

/-- The list of all elements has in each place what has been written there last. -/
theorem Written.toList_eq {a b : PagedArray α} {n : Nat} {writes : List (Write α)}
    (h : a.Written n writes b) (ha : a.Shaped n) :
    b.toList = a.toList.mapIdx fun i x => (Write.last? writes i).getD x := by
  apply List.ext_getElem?
  intro i
  rw [List.getElem?_mapIdx, h.shaped.getElem?_toList, ha.getElem?_toList]
  by_cases hi : i < n
  · obtain ⟨x, hx⟩ := ha.exists_get? hi
    rw [h.get?_eq i hi, hx]
    cases Write.last? writes i <;> rfl
  · rw [h.shaped.get?_of_le (by omega), ha.get?_of_le (by omega)]
    rfl

/-! ## One view -/

section

variable {a : PagedArray α} {n : Nat} {ranges : List (Nat × Nat)}

theorem exists_view_split (ha : a.Shaped n) (hasc : PagedView.Ascending ranges) {k : Nat}
    {r : Nat × Nat} (hr : ranges[k]? = some r) :
    ∃ v, (a.split ranges)[k]? = some v ∧ v.start = r.1 ∧ v.stop = r.2 := by
  rw [← map_range_split ha hasc, List.getElem?_map] at hr
  obtain ⟨v, hv, rfl⟩ := Option.map_eq_some_iff.1 hr
  exact ⟨v, hv, rfl, rfl⟩

/-- A view of `a` reads the elements of its range, and no others, from every array that has come
    from `a` by writes. -/
theorem viewGet?_split {b : PagedArray α} (ha : a.Shaped n) (hb : b.Shaped n)
    (hshift : b.shift = a.shift) (hasc : PagedView.Ascending ranges) {v : PagedView}
    (hv : v ∈ a.split ranges) (hstop : v.stop ≤ n) (i : Nat) :
    b.viewGet? v i = if v.start ≤ i ∧ i < v.stop then b.toList[i]? else none := by
  have hplace := position?_of_mem_split ha hasc hv hstop i
  split_ifs at hplace ⊢ with hi
  · rw [viewGet?_eq hb (by omega) (by rw [hplace, hshift]), hb.getElem?_toList]
  · unfold viewGet?
    rw [hplace]
    rfl

theorem isSome_viewGet?_split {b : PagedArray α} (ha : a.Shaped n) (hb : b.Shaped n)
    (hshift : b.shift = a.shift) (hasc : PagedView.Ascending ranges) {v : PagedView}
    (hv : v ∈ a.split ranges) (hstop : v.stop ≤ n) (i : Nat) :
    (b.viewGet? v i).isSome ↔ v.start ≤ i ∧ i < v.stop := by
  rw [viewGet?_split ha hb hshift hasc hv hstop]
  split_ifs with hi
  · obtain ⟨x, hx⟩ := hb.exists_get? (show i < n by omega)
    rw [hb.getElem?_toList, hx]
    simp [hi]
  · simp [hi]

end

/-! ## Writes -/

section

variable {a : PagedArray α} {n : Nat} {ranges : List (Nat × Nat)} {writes : List (Write α)}

theorem Shaped.written_nil (ha : a.Shaped n) : a.Written n [] a :=
  ⟨ha, rfl, fun _ _ => rfl⟩

section

variable {b : PagedArray α} (ha : a.Shaped n) (hasc : PagedView.Ascending ranges)
  (hend : ∀ r ∈ ranges, r.2 ≤ n) {w : Write α}
include ha hasc hend

/-- A write in the range of its view is performed. -/
theorem exists_write?_split (hb : a.Written n writes b) (hw : w.InRange ranges) :
    ∃ c, b.write? (a.split ranges) w = some c ∧ a.Written n (writes ++ [w]) c := by
  obtain ⟨r, hr, hstart, hstop⟩ := hw
  have hle : r.2 ≤ n := hend r (List.mem_of_getElem? hr)
  obtain ⟨v, hv, h1, h2⟩ := exists_view_split ha hasc hr
  have hplace := position?_of_mem_split ha hasc (List.mem_of_getElem? hv) (by omega) w.index
  rw [if_pos (by omega), ← hb.shift_eq] at hplace
  have hset : b.viewSet v w.index w.value = b.modify w.index fun _ => w.value := by
    unfold viewSet
    rw [hplace]
    exact hb.shaped.setAt_eq_modify (by omega) w.value
  refine ⟨b.viewSet v w.index w.value, ?_, ?_⟩
  · show ((a.split ranges)[w.view]?).bind _ = _
    rw [hv, Option.bind_some]
    show (v.position? w.index).map _ = _
    rw [hplace]
    rfl
  · rw [hset]
    refine ⟨hb.shaped.modify _ _, by unfold modify; split <;> exact hb.shift_eq, ?_⟩
    intro i hi
    rw [get?_modify, Write.last?_append_singleton, hb.get?_eq i hi]
    split_ifs with hwritten
    · obtain ⟨x, hx⟩ := ha.exists_get? hi
      rw [hx]
      cases Write.last? writes i <;> rfl
    · rfl

/-- A write that is not in the range of its view is refused. -/
theorem write?_split_eq_none (hw : ¬ w.InRange ranges) : b.write? (a.split ranges) w = none := by
  show ((a.split ranges)[w.view]?).bind _ = none
  cases hv : (a.split ranges)[w.view]? with
  | none => rfl
  | some v =>
    have hr : ranges[w.view]? = some v.range := by
      rw [← map_range_split ha hasc, List.getElem?_map, hv]
      rfl
    have hle : v.stop ≤ n := hend v.range (List.mem_of_getElem? hr)
    have hin : ¬ (v.start ≤ w.index ∧ w.index < v.stop) := fun hin => hw ⟨v.range, hr, hin⟩
    have hplace := position?_of_mem_split ha hasc (List.mem_of_getElem? hv) hle w.index
    rw [if_neg hin] at hplace
    rw [Option.bind_some]
    show (v.position? w.index).map _ = none
    rw [hplace]
    rfl

end

/-- Writes are performed exactly if all of them are in the ranges of their views. -/
theorem writeAll?_split (ha : a.Shaped n) (hasc : PagedView.Ascending ranges)
    (hend : ∀ r ∈ ranges, r.2 ≤ n) (writes : List (Write α)) :
    ((∀ w ∈ writes, w.InRange ranges) → ∃ b, a.writeAll? (a.split ranges) writes = some b ∧
      a.Written n writes b) ∧
    ((∃ w ∈ writes, ¬ w.InRange ranges) → a.writeAll? (a.split ranges) writes = none) := by
  induction writes using List.reverseRecOn with
  | nil => exact ⟨fun _ => ⟨a, rfl, ha.written_nil⟩, fun ⟨w, hw, _⟩ => by cases hw⟩
  | append_singleton writes w ih =>
    rw [writeAll?_append_singleton]
    by_cases hearlier : ∀ w ∈ writes, w.InRange ranges
    · obtain ⟨b, hrun, hb⟩ := ih.1 hearlier
      rw [hrun, Option.bind_some]
      constructor
      · intro hall
        exact exists_write?_split ha hasc hend hb (hall w (by simp))
      · rintro ⟨u, hu, hbad⟩
        rcases List.mem_append.1 hu with hu | hu
        · exact absurd (hearlier u hu) hbad
        · rw [List.mem_singleton] at hu
          subst hu
          exact write?_split_eq_none ha hasc hend hbad
    · push Not at hearlier
      constructor
      · intro hall
        obtain ⟨u, hu, hbad⟩ := hearlier
        exact absurd (hall u (List.mem_append_left _ hu)) hbad
      · intro _
        rw [ih.2 hearlier]
        rfl

end

/-- The views of ascending ranges that end within the array: there is one for each range, in order.
    Writes through them are performed exactly if each of them is in the range of its view. What the
    array becomes by them is the array with what has been written last to each index in the place of
    what it had there; and a view then has an element exactly at the indices of its range, the one
    that the array has. -/
theorem split_shares_out {a : PagedArray α} {n : Nat} (ha : a.Shaped n)
    {ranges : List (Nat × Nat)} (hasc : PagedView.Ascending ranges)
    (hend : ∀ r ∈ ranges, r.2 ≤ n) :
    (a.split ranges).map PagedView.range = ranges ∧
    ∀ writes : List (Write α),
      ((a.writeAll? (a.split ranges) writes).isSome ↔ ∀ w ∈ writes, w.InRange ranges) ∧
      ∀ b, a.writeAll? (a.split ranges) writes = some b →
        b.toList = (a.toList.mapIdx fun i x => (Write.last? writes i).getD x) ∧
        ∀ v ∈ a.split ranges, ∀ i,
          ((b.viewGet? v i).isSome ↔ v.start ≤ i ∧ i < v.stop) ∧
          (v.start ≤ i → i < v.stop → b.viewGet? v i = b.toList[i]?) := by
  refine ⟨map_range_split ha hasc, fun writes => ?_⟩
  obtain ⟨hin, hout⟩ := writeAll?_split ha hasc hend writes
  by_cases hall : ∀ w ∈ writes, w.InRange ranges
  · obtain ⟨b, hrun, hb⟩ := hin hall
    refine ⟨⟨fun _ => hall, fun _ => by simp [hrun]⟩, ?_⟩
    rintro c hc
    obtain rfl : b = c := Option.some.inj (hrun.symm.trans hc)
    refine ⟨hb.toList_eq ha, fun v hv i => ?_⟩
    have hle : v.stop ≤ n := by
      apply hend v.range
      rw [← map_range_split ha hasc]
      exact List.mem_map_of_mem hv
    refine ⟨isSome_viewGet?_split ha hb.shaped hb.shift_eq hasc hv hle i, fun h1 h2 => ?_⟩
    rw [viewGet?_split ha hb.shaped hb.shift_eq hasc hv hle, if_pos ⟨h1, h2⟩]
  · push Not at hall
    have hnone := hout hall
    refine ⟨?_, fun b hb => ?_⟩
    · rw [hnone]
      simpa using hall
    · rw [hnone] at hb
      cases hb

/-- Three pages of an array of eleven elements: a view of the first page only, an empty one, and one
    that goes across two pages. Index 6 is written twice, index 3 is written to by nobody. -/
theorem split_shares_out_eleven :
    let a : PagedArray Nat := ⟨#[#[0, 1, 2, 3], #[4, 5, 6, 7], #[8, 9, 10]], 11, 2⟩
    let ranges := [(0, 3), (3, 3), (5, 9)]
    let writes : List (Write Nat) := [⟨2, 6, 60⟩, ⟨0, 2, 20⟩, ⟨2, 8, 80⟩, ⟨2, 6, 61⟩]
    PagedArray.new 11 2 id = .ok a ∧ PagedView.Ascending ranges ∧
      ((a.writeAll? (a.split ranges) writes).map PagedArray.toList =
        some [0, 1, 20, 3, 4, 5, 61, 7, 80, 9, 10]) ∧
      a.writeAll? (a.split ranges) [⟨0, 3, 30⟩] = none := by
  intro a ranges writes
  have hnew : PagedArray.new 11 2 id = .ok a := by rfl
  have hasc : PagedView.Ascending ranges := by simp [ranges, PagedView.Ascending]
  obtain ⟨-, h⟩ := split_shares_out (new_spec hnew).1 hasc (by simp [ranges])
  obtain ⟨hsome, hresult⟩ := h writes
  refine ⟨hnew, hasc, ?_, ?_⟩
  · have hin : ∀ w ∈ writes, w.InRange ranges := by
      simp [writes, ranges, Write.InRange]
    obtain ⟨b, hb⟩ := Option.isSome_iff_exists.1 (hsome.2 hin)
    rw [hb, Option.map_some, (hresult b hb).1]
    rfl
  · have hout : ¬ ∀ w ∈ [(⟨0, 3, 30⟩ : Write Nat)], w.InRange ranges := by
      simp [ranges, Write.InRange]
    rw [← (h _).1] at hout
    simpa using hout

end PagedArray

end Superstep
