import Superstep.Proofs.Storage.Paged

/-!
# Views of a paged array

`PagedArray.split` cuts the pages up in one pass. `Cut v off` says how far the pass has come for one
view: it finds exactly the elements of its range that lie before `off`.

Results:
* `position?_of_mem_split`: a view finds the elements of its range where the array has them.
* `map_range_split`: there is one view per range, in order.
-/

namespace Superstep

namespace PagedView

/-- The range of a view. -/
def range (v : PagedView) : Nat × Nat := (v.start, v.stop)

/-- A view that has its elements before `off`. -/
structure Cut (shift : Nat) (v : PagedView) (off : Nat) : Prop where
  shift_eq : v.shift = shift
  size_eq : v.segments.size =
    if min v.stop off ≤ v.start then 0
    else (min v.stop off - 1) / PagedArray.fullPage shift -
      v.start / PagedArray.fullPage shift + 1
  found : ∀ i, v.start ≤ i → i < v.stop → i < off →
    v.position? i = some (i / PagedArray.fullPage shift, i % PagedArray.fullPage shift)

/-- Ranges in ascending order that do not overlap. -/
def Ascending : List (Nat × Nat) → Prop
  | [] => True
  | r :: rs => r.1 ≤ r.2 ∧ (∀ q ∈ rs, r.2 ≤ q.1) ∧ Ascending rs

/-! ## One view -/

theorem cut_zero (shift : Nat) (r : Nat × Nat) : Cut shift ⟨r.1, r.2, shift, #[]⟩ 0 := by
  refine ⟨rfl, ?_, fun i _ _ hi => absurd hi (Nat.not_lt_zero i)⟩
  simp

theorem Cut.advance {shift : Nat} {v : PagedView} {off next : Nat} (h : Cut shift v off)
    (hle : off ≤ next) (hout : v.stop ≤ off ∨ next ≤ v.start) : Cut shift v next := by
  refine ⟨h.shift_eq, ?_, fun i h1 h2 h3 => h.found i h1 h2 (by omega)⟩
  rw [h.size_eq]
  rcases hout with hstop | hstart
  · rw [Nat.min_eq_left hstop, Nat.min_eq_left (hstop.trans hle)]
  · rw [if_pos (by omega), if_pos (by omega)]

/-- An element that has been found is still found when a segment is added. -/
theorem position?_push {v : PagedView} {i : Nat} {place : Nat × Nat}
    (h : v.position? i = some place) (seg : Segment) :
    { v with segments := v.segments.push seg }.position? i = some place := by
  unfold position? at h ⊢
  simp only at h ⊢
  split at h
  · next hin =>
    rw [if_pos hin]
    generalize hk : i / PagedArray.fullPage v.shift - v.start / PagedArray.fullPage v.shift = k
    rw [hk] at h
    cases hs : v.segments[k]? with
    | none =>
      rw [hs] at h
      cases h
    | some s =>
      rw [hs] at h
      obtain ⟨hlt, rfl⟩ := Array.getElem?_eq_some_iff.1 hs
      rw [Array.getElem?_push_lt hlt]
      exact h
  · cases h

theorem div_of_mem_page {page p i : Nat} (h1 : page * p ≤ i) (h2 : i < page * p + p) :
    i / p = page := by
  rw [Nat.div_eq_iff (by omega)]
  exact ⟨h1, by omega⟩

theorem mod_of_mem_page {page p i : Nat} (h1 : page * p ≤ i) (h2 : i < page * p + p) :
    i % p = i - page * p := by
  have := Nat.div_add_mod' i p
  rw [div_of_mem_page h1 h2] at this
  omega

theorem start_or_first {start page p used : Nat} (hused : used < p)
    (hstart : start ≤ page * p + used) (hfresh : page * p + used ≤ max start (page * p)) :
    (start / p = page ∧ page * p + used = start) ∨ (start / p < page ∧ used = 0) := by
  by_cases hle : page * p ≤ start
  · exact .inl ⟨div_of_mem_page hle (by omega), by omega⟩
  · refine .inr ⟨?_, by omega⟩
    rw [Nat.div_lt_iff_lt_mul (by omega)]
    omega

/-- A view that is taken up in a page has one segment for each earlier page it is in. -/
theorem Cut.size_of_fresh {shift page used : Nat} {v : PagedView}
    (h : Cut shift v (page * PagedArray.fullPage shift + used))
    (hused : used < PagedArray.fullPage shift)
    (hstart : v.start ≤ page * PagedArray.fullPage shift + used)
    (hstop : page * PagedArray.fullPage shift + used < v.stop)
    (hfresh : page * PagedArray.fullPage shift + used ≤
      max v.start (page * PagedArray.fullPage shift)) :
    v.segments.size = page - v.start / PagedArray.fullPage shift := by
  have hsize := h.size_eq
  generalize PagedArray.fullPage shift = p at *
  rw [hsize]
  rcases start_or_first hused hstart hfresh with ⟨hsp, hoff⟩ | ⟨hsp, hzero⟩
  · rw [if_pos (by omega), hsp, Nat.sub_self]
  · have hlt : v.start < page * p := (Nat.div_lt_iff_lt_mul (by omega)).1 hsp
    obtain ⟨earlier, rfl⟩ := Nat.exists_eq_add_one_of_ne_zero (Nat.ne_zero_of_lt hsp)
    have hlast : ((earlier + 1) * p - 1) / p = earlier := by
      rw [Nat.add_mul, one_mul]
      exact div_of_mem_page (by omega) (by omega)
    rw [hzero, Nat.add_zero, if_neg (by omega), Nat.min_eq_right (by omega), hlast]
    exact (Nat.succ_sub (Nat.le_of_lt_succ hsp)).symm

/-- The next segment of a view goes from where the pass stands to the end of the range or of the
    page. -/
theorem Cut.take {shift page used taken : Nat} {v : PagedView}
    (h : Cut shift v (page * PagedArray.fullPage shift + used))
    (hpage : used + taken ≤ PagedArray.fullPage shift) (htaken : 0 < taken)
    (hstart : v.start ≤ page * PagedArray.fullPage shift + used)
    (hstop : page * PagedArray.fullPage shift + (used + taken) ≤ v.stop)
    (hfresh : page * PagedArray.fullPage shift + used ≤
      max v.start (page * PagedArray.fullPage shift)) :
    Cut shift { v with segments := v.segments.push ⟨page, used, taken⟩ }
      (page * PagedArray.fullPage shift + (used + taken)) := by
  have hsize := h.size_of_fresh (by omega) hstart (by omega) hfresh
  have hcase := start_or_first (by omega) hstart hfresh
  refine ⟨h.shift_eq, ?_, ?_⟩
  · have hlast : (page * PagedArray.fullPage shift + (used + taken) - 1) /
        PagedArray.fullPage shift = page := div_of_mem_page (by omega) (by omega)
    simp only [Array.size_push]
    rw [hsize, if_neg (by omega), Nat.min_eq_right (by omega), hlast]
  · intro i h1 h2 h3
    simp only at h1 h2
    by_cases hold : i < page * PagedArray.fullPage shift + used
    · exact position?_push (h.found i h1 h2 hold) _
    · have hdiv : i / PagedArray.fullPage shift = page := div_of_mem_page (by omega) (by omega)
      have hmod : i % PagedArray.fullPage shift = i - page * PagedArray.fullPage shift :=
        mod_of_mem_page (by omega) (by omega)
      unfold position?
      simp only [Bool.and_eq_true, decide_eq_true_eq]
      rw [if_pos ⟨h1, h2⟩, h.shift_eq, hdiv, hmod, ← hsize, Array.getElem?_push_size]
      simp only
      rw [hsize]
      generalize PagedArray.fullPage shift = p at *
      rcases hcase with ⟨hsp, hoff⟩ | ⟨hsp, hzero⟩
      · rw [if_pos (Nat.sub_eq_zero_of_le hsp.ge), if_pos (by omega)]
        simp only [Option.some.injEq, Prod.mk.injEq, true_and]
        omega
      · rw [if_neg (Nat.sub_ne_zero_of_lt hsp), if_pos (by omega)]
        simp only [Option.some.injEq, Prod.mk.injEq, true_and]
        omega

/-! ## The pass through one page -/

/-- Where the pass through the pages stands: which views it has filled, and which are pending. -/
structure Pass (shift page off rest : Nat) (filled pending : List PagedView) : Prop where
  filled_cut : ∀ v ∈ filled, Cut shift v off ∧ v.stop ≤ off
  pending_cut : ∀ v ∈ pending, Cut shift v off
  /-- No view is taken up twice in one page. -/
  fresh : ∀ v ∈ pending, off ≤ max v.start (page * PagedArray.fullPage shift) ∨ v.stop ≤ off ∨
    rest = 0
  ascending : Ascending (pending.map range)

/-- The views have been cut up to `off`, and are those of the given ranges. -/
def CutAll (shift off : Nat) (ranges : List (Nat × Nat)) (views : List PagedView) : Prop :=
  (∀ v ∈ views, Cut shift v off) ∧ views.map range = ranges

theorem Pass.cutAll {shift page off rest : Nat} {filled pending : List PagedView}
    (h : Pass shift page off rest filled pending) :
    CutAll shift off ((filled ++ pending).map range) (filled ++ pending) := by
  refine ⟨?_, rfl⟩
  intro v hv
  rcases List.mem_append.1 hv with hv | hv
  · exact (h.filled_cut v hv).1
  · exact h.pending_cut v hv

namespace Pass

variable {shift page used rest : Nat} {filled : List PagedView} {v : PagedView}
  {vs : List PagedView}

theorem close (h : Pass shift page (page * PagedArray.fullPage shift + used) rest filled (v :: vs))
    (hstop : v.stop ≤ page * PagedArray.fullPage shift + used) :
    Pass shift page (page * PagedArray.fullPage shift + used) rest (filled ++ [v]) vs := by
  obtain ⟨-, -, hvs⟩ := h.ascending
  refine ⟨?_, fun u hu => h.pending_cut u (List.mem_cons_of_mem v hu), fun u hu => h.fresh u
    (List.mem_cons_of_mem v hu), hvs⟩
  intro u hu
  rcases List.mem_append.1 hu with hu | hu
  · exact h.filled_cut u hu
  · rw [List.mem_singleton] at hu
    subst hu
    exact ⟨h.pending_cut u List.mem_cons_self, hstop⟩

/-- Elements before the first pending view belong to no view. -/
theorem skip (h : Pass shift page (page * PagedArray.fullPage shift + used) rest filled (v :: vs))
    {gap : Nat} (hgap : page * PagedArray.fullPage shift + (used + gap) ≤ v.start) :
    Pass shift page (page * PagedArray.fullPage shift + (used + gap)) (rest - gap) filled
      (v :: vs) := by
  obtain ⟨hv, hvs, -⟩ := h.ascending
  have hall : ∀ u ∈ v :: vs, v.start ≤ u.start := by
    intro u hu
    rcases List.mem_cons.1 hu with rfl | hu
    · exact le_rfl
    · exact hv.trans (hvs u.range (List.mem_map_of_mem hu))
  refine ⟨?_, ?_, fun u hu => .inl ?_, h.ascending⟩
  · intro u hu
    obtain ⟨hcut, hle⟩ := h.filled_cut u hu
    exact ⟨hcut.advance (by omega) (.inl hle), by omega⟩
  · intro u hu
    exact (h.pending_cut u hu).advance (by omega) (.inr (hgap.trans (hall u hu)))
  · have hstart := hall u hu
    omega

/-- The first pending view takes what it needs of the page. -/
theorem take (h : Pass shift page (page * PagedArray.fullPage shift + used) rest filled (v :: vs))
    (hpage : used + rest ≤ PagedArray.fullPage shift) (hrest : ¬ rest = 0)
    (hstop : ¬ v.stop ≤ page * PagedArray.fullPage shift + used)
    (hstart : ¬ page * PagedArray.fullPage shift + used < v.start) :
    let taken := min (v.stop - (page * PagedArray.fullPage shift + used)) rest
    Pass shift page (page * PagedArray.fullPage shift + (used + taken)) (rest - taken) filled
      ({ v with segments := v.segments.push ⟨page, used, taken⟩ } :: vs) := by
  intro taken
  obtain ⟨hv, hvs, -⟩ := h.ascending
  have htaken : taken ≤ v.stop - (page * PagedArray.fullPage shift + used) := Nat.min_le_left _ _
  have htaken' : taken ≤ rest := Nat.min_le_right _ _
  have hlater : ∀ u ∈ vs, v.stop ≤ u.start := by
    intro u hu
    exact hvs u.range (List.mem_map_of_mem hu)
  refine ⟨?_, ?_, ?_, h.ascending⟩
  · intro u hu
    obtain ⟨hcut, hle⟩ := h.filled_cut u hu
    exact ⟨hcut.advance (by omega) (.inl hle), by omega⟩
  · intro u hu
    rcases List.mem_cons.1 hu with rfl | hu
    · refine (h.pending_cut v List.mem_cons_self).take (by omega) (by omega) (by omega)
        (by omega) ?_
      rcases h.fresh v List.mem_cons_self with hfresh | hdone | hnone
      · exact hfresh
      · exact absurd hdone hstop
      · exact absurd hnone hrest
    · have hbehind := hlater u hu
      exact (h.pending_cut u (List.mem_cons_of_mem v hu)).advance (by omega) (.inr (by omega))
  · intro u hu
    rcases List.mem_cons.1 hu with rfl | hu
    · refine .inr ?_
      simp only
      omega
    · have hbehind := hlater u hu
      exact .inl (by omega)

end Pass

/-- The pass through what is left of a page. -/
theorem cutPage_spec (shift page used rest : Nat) (filled pending : List PagedView)
    (hpage : used + rest ≤ PagedArray.fullPage shift)
    (h : Pass shift page (page * PagedArray.fullPage shift + used) rest filled pending) :
    Pass shift page (page * PagedArray.fullPage shift + (used + rest)) 0
        (cutPage shift page used rest filled pending).1
        (cutPage shift page used rest filled pending).2 ∧
      ((cutPage shift page used rest filled pending).1 ++
        (cutPage shift page used rest filled pending).2).map range =
          (filled ++ pending).map range := by
  fun_induction cutPage shift page used rest filled pending with
  | case1 used filled pending =>
    refine ⟨⟨h.filled_cut, h.pending_cut, fun v _ => .inr (.inr rfl), h.ascending⟩, rfl⟩
  | case2 used rest filled hrest =>
    refine ⟨⟨?_, by simp, by simp, trivial⟩, rfl⟩
    intro v hv
    obtain ⟨hcut, hstop⟩ := h.filled_cut v hv
    exact ⟨hcut.advance (by omega) (.inl hstop), by omega⟩
  | case3 used rest filled hrest off v vs hstop ih =>
    obtain ⟨hpass, hranges⟩ := ih hpage (h.close hstop)
    refine ⟨hpass, ?_⟩
    rw [hranges]
    simp
  | case4 used rest filled hrest off v vs hstop hstart gap ih =>
    have hgap : gap ≤ v.start - off := Nat.min_le_left _ _
    have hgap' : gap ≤ rest := Nat.min_le_right _ _
    obtain ⟨hpass, hranges⟩ := ih (by omega) (h.skip (by omega))
    rw [show used + gap + (rest - gap) = used + rest by omega] at hpass
    exact ⟨hpass, hranges⟩
  | case5 used rest filled hrest off v vs hstop hstart taken ih =>
    have htaken : taken ≤ rest := Nat.min_le_right _ _
    obtain ⟨hpass, hranges⟩ := ih (by omega) (h.take hpage hrest hstop hstart)
    rw [show used + taken + (rest - taken) = used + rest by omega] at hpass
    refine ⟨hpass, ?_⟩
    rw [hranges]
    simp [range]

/-! ## The pass through all pages -/

/-- The pass through the pages from `page` on of an array of `n` elements. -/
theorem cutPages_spec (shift n page : Nat) (lengths : List Nat) (filled pending : List PagedView)
    (hlen : ∀ q l, lengths[q]? = some l →
      l = min (PagedArray.fullPage shift) (n - (page + q) * PagedArray.fullPage shift))
    (hend : n ≤ (page + lengths.length) * PagedArray.fullPage shift)
    (h : Pass shift page (min n (page * PagedArray.fullPage shift)) 1 filled pending) :
    CutAll shift n ((filled ++ pending).map range)
      (cutPages shift page lengths filled pending) := by
  induction lengths generalizing page filled pending with
  | nil =>
    rw [List.length_nil, Nat.add_zero] at hend
    rw [Nat.min_eq_left hend] at h
    exact h.cutAll
  | cons length lengths ih =>
    have hlength := hlen 0 length rfl
    rw [Nat.add_zero] at hlength
    set p := PagedArray.fullPage shift with hp
    have hsucc : (page + 1) * p = page * p + p := Nat.succ_mul page p
    have hstep : Pass shift page (min n ((page + 1) * p)) 0
          (cutPage shift page 0 length filled pending).1
          (cutPage shift page 0 length filled pending).2 ∧
        ((cutPage shift page 0 length filled pending).1 ++
          (cutPage shift page 0 length filled pending).2).map range =
            (filled ++ pending).map range := by
      by_cases hpage : page * p ≤ n
      · have hoff : min n ((page + 1) * p) = page * p + (0 + length) := by omega
        rw [hoff]
        rw [Nat.min_eq_right hpage] at h
        refine cutPage_spec shift page 0 length filled pending (by omega) ⟨h.filled_cut,
          h.pending_cut, ?_, h.ascending⟩
        intro v hv
        rcases h.fresh v hv with hf | hf | hf
        · exact .inl hf
        · exact .inr (.inl hf)
        · exact absurd hf (by omega)
      · have hzero : length = 0 := by omega
        have hoff : min n ((page + 1) * p) = min n (page * p) := by omega
        subst hzero
        rw [hoff]
        unfold cutPage
        exact ⟨⟨h.filled_cut, h.pending_cut, fun v _ => .inr (.inr rfl), h.ascending⟩, rfl⟩
    obtain ⟨hpass, hmap⟩ := hstep
    unfold cutPages
    rw [← hmap]
    refine ih (page + 1) _ _ (?_) ?_ ⟨hpass.filled_cut, hpass.pending_cut, fun v hv => .inl ?_,
      hpass.ascending⟩
    · intro q l hq
      rw [hlen (q + 1) l hq, show page + 1 + q = page + (q + 1) by omega]
    · rw [List.length_cons] at hend
      rw [show page + 1 + lengths.length = page + (lengths.length + 1) by omega]
      exact hend
    · rw [← hp]
      omega

end PagedView

namespace PagedArray

variable {α : Type}

theorem viewGet?_eq {a : PagedArray α} {n : Nat} (ha : a.Shaped n)
    {v : PagedView} {i : Nat} (hi : i < n)
    (hv : v.position? i = some (i / fullPage a.shift, i % fullPage a.shift)) :
    a.viewGet? v i = a.get? i := by
  unfold viewGet? get? pageSize
  rw [hv, if_pos (by rw [ha.size_eq]; exact hi)]
  rfl

/-- The pass has cut all views up to the end of the array. -/
theorem cutAll_split {a : PagedArray α} {n : Nat} (ha : a.Shaped n) {ranges : List (Nat × Nat)}
    (hasc : PagedView.Ascending ranges) :
    PagedView.CutAll a.shift n ranges (a.split ranges) := by
  have hmap : (ranges.map fun r => (⟨r.1, r.2, a.shift, #[]⟩ : PagedView)).map PagedView.range =
      ranges := by
    rw [List.map_map]
    exact List.map_id ranges
  have h := PagedView.cutPages_spec a.shift n 0 (a.pages.toList.map Array.size) []
    (ranges.map fun r => ⟨r.1, r.2, a.shift, #[]⟩) ?_ ?_ ?_
  · rw [List.nil_append, hmap] at h
    exact h
  · intro q l hq
    rw [List.getElem?_map] at hq
    obtain ⟨page, hpage, rfl⟩ := Option.map_eq_some_iff.1 hq
    rw [Array.getElem?_toList] at hpage
    rw [ha.page_eq q page hpage, Nat.zero_add]
  · rw [Nat.zero_add, List.length_map, Array.length_toList, ha.pages_eq]
    exact le_pageCount_mul n a.shift
  · rw [Nat.zero_mul, Nat.min_zero]
    refine ⟨by simp, ?_, fun v _ => .inl (Nat.zero_le _), by rwa [hmap]⟩
    intro v hv
    obtain ⟨r, -, rfl⟩ := List.mem_map.1 hv
    exact PagedView.cut_zero a.shift r

theorem map_range_split {a : PagedArray α} {n : Nat} (ha : a.Shaped n) {ranges : List (Nat × Nat)}
    (hasc : PagedView.Ascending ranges) : (a.split ranges).map PagedView.range = ranges :=
  (cutAll_split ha hasc).2

/-- A view finds the elements of its range where the array has them, and no others. -/
theorem position?_of_mem_split {a : PagedArray α} {n : Nat} (ha : a.Shaped n)
    {ranges : List (Nat × Nat)} (hasc : PagedView.Ascending ranges) {v : PagedView}
    (hv : v ∈ a.split ranges) (hstop : v.stop ≤ n) (i : Nat) :
    v.position? i = if v.start ≤ i ∧ i < v.stop then
      some (i / fullPage a.shift, i % fullPage a.shift) else none := by
  split_ifs with hi
  · exact ((cutAll_split ha hasc).1 v hv).found i hi.1 hi.2 (by omega)
  · exact PagedView.position?_of_not_mem hi

end PagedArray

end Superstep
