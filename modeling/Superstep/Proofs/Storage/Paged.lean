import Mathlib.Tactic
import Superstep.Storage.PagedView

/-!
# Paged arrays as arrays

`Shaped` is what every paged array keeps: it has the pages that its size needs, all of them full but
the last. Under it an element is found exactly at the indices below the size, and a write changes
one element.

Results:
* `new_spec`: a new array holds what it has been filled with.
* `get?_modify`, `get?_setAt`: what a write does to the elements.
* `Shaped.getElem?_toList`: the elements of all pages, one after the other, are those of the array.
-/

namespace Superstep.PagedArray

variable {α : Type}

/-- An array of `n` elements that has the pages it needs. -/
structure Shaped (a : PagedArray α) (n : Nat) : Prop where
  size_eq : a.size = n
  pages_eq : a.pages.size = pageCount n a.shift
  page_eq : ∀ p page, a.pages[p]? = some page →
    page.size = min (fullPage a.shift) (n - p * fullPage a.shift)

theorem div_lt_pageCount {n i : Nat} (shift : Nat) (h : i < n) :
    i / fullPage shift < pageCount n shift := by
  have hpos := fullPage_pos shift
  unfold pageCount
  rw [Nat.div_lt_iff_lt_mul hpos]
  have h1 := Nat.div_add_mod' (n + (fullPage shift - 1)) (fullPage shift)
  have h2 := Nat.mod_lt (n + (fullPage shift - 1)) hpos
  omega

theorem le_pageCount_mul (n shift : Nat) : n ≤ pageCount n shift * fullPage shift := by
  have hpos := fullPage_pos shift
  have h1 := Nat.div_add_mod' (n + (fullPage shift - 1)) (fullPage shift)
  have h2 := Nat.mod_lt (n + (fullPage shift - 1)) hpos
  unfold pageCount
  omega

theorem mod_lt_page {n i : Nat} (shift : Nat) (h : i < n) :
    i % fullPage shift < min (fullPage shift) (n - i / fullPage shift * fullPage shift) := by
  have h1 := Nat.mod_lt i (fullPage_pos shift)
  have h2 := Nat.div_add_mod' i (fullPage shift)
  omega

theorem eq_of_div_mod {i j p : Nat} (hd : i / p = j / p) (hm : i % p = j % p) : i = j := by
  rw [← Nat.div_add_mod i p, ← Nat.div_add_mod j p, hd, hm]

namespace Shaped

variable {a : PagedArray α} {n : Nat}

theorem exists_slot (h : a.Shaped n) {i : Nat} (hi : i < n) :
    ∃ page x, a.pages[i / a.pageSize]? = some page ∧ page[i % a.pageSize]? = some x := by
  have hp : i / a.pageSize < a.pages.size := by
    rw [h.pages_eq]
    exact div_lt_pageCount a.shift hi
  have hpage := Array.getElem?_eq_getElem hp
  have ho : i % a.pageSize < (a.pages[i / a.pageSize]).size := by
    rw [h.page_eq _ _ hpage]
    exact mod_lt_page a.shift hi
  exact ⟨_, _, hpage, Array.getElem?_eq_getElem ho⟩

theorem exists_get? (h : a.Shaped n) {i : Nat} (hi : i < n) : ∃ x, a.get? i = some x := by
  obtain ⟨page, x, hpage, hx⟩ := h.exists_slot hi
  refine ⟨x, ?_⟩
  rw [get?, if_pos (by rw [h.size_eq]; exact hi), hpage]
  exact hx

theorem get?_of_le (h : a.Shaped n) {i : Nat} (hi : n ≤ i) : a.get? i = none :=
  get?_of_size_le (by rw [h.size_eq]; exact hi)

/-- Whatever is done to the pages one by one, an array keeps its shape when they keep their size. -/
theorem modifyPage (h : a.Shaped n) (p : Nat) (f : Array α → Array α)
    (hf : ∀ page, (f page).size = page.size) :
    Shaped { a with pages := a.pages.modify p f } n := by
  refine ⟨h.size_eq, by rw [Array.size_modify]; exact h.pages_eq, ?_⟩
  intro q page hq
  rw [Array.getElem?_modify] at hq
  split_ifs at hq
  · obtain ⟨old, hold, rfl⟩ := Option.map_eq_some_iff.1 hq
    rw [hf]
    exact h.page_eq q old hold
  · exact h.page_eq q page hq

theorem modify (h : a.Shaped n) (i : Nat) (f : α → α) : (a.modify i f).Shaped n := by
  unfold PagedArray.modify
  split
  · exact h.modifyPage _ _ fun page => Array.size_modify
  · exact h

theorem setAt (h : a.Shaped n) (page i : Nat) (x : α) : (a.setAt page i x).Shaped n :=
  h.modifyPage _ _ fun _ => Array.size_setIfInBounds

theorem setAt_eq_modify (h : a.Shaped n) {i : Nat} (hi : i < n) (x : α) :
    a.setAt (i / fullPage a.shift) (i % fullPage a.shift) x = a.modify i fun _ => x := by
  unfold PagedArray.setAt PagedArray.modify
  rw [if_pos (by rw [h.size_eq]; exact hi)]
  simp only [pageSize]
  congr 2

end Shaped

/-- Changing an element changes no other. -/
theorem get?_modify (a : PagedArray α) (i j : Nat) (f : α → α) :
    (a.modify i f).get? j = if i = j then (a.get? j).map f else a.get? j := by
  unfold modify
  split
  · next hi =>
    unfold get? pageSize
    simp only [Array.getElem?_modify]
    by_cases hj : j < a.size
    · rw [if_pos hj, if_pos hj]
      by_cases hpage : i / fullPage a.shift = j / fullPage a.shift
      · rw [if_pos hpage]
        by_cases hij : i = j
        · subst hij
          rw [if_pos rfl]
          cases a.pages[i / fullPage a.shift]? with
          | none => rfl
          | some page => simp [Array.getElem?_modify]
        · have hmod : i % fullPage a.shift ≠ j % fullPage a.shift :=
            fun hmod => hij (eq_of_div_mod hpage hmod)
          rw [if_neg hij]
          cases a.pages[j / fullPage a.shift]? with
          | none => rfl
          | some page => simp [Array.getElem?_modify, hmod]
      · have hij : i ≠ j := fun hij => hpage (by rw [hij])
        rw [if_neg hpage, if_neg hij]
    · have hij : i ≠ j := by omega
      rw [if_neg hj, if_neg hj, if_neg hij]
  · next hi =>
    split
    · next hij =>
      subst hij
      rw [get?_of_size_le (by omega)]
      rfl
    · rfl

/-- Writing the place of an index writes its element, and no other. -/
theorem get?_setAt {a : PagedArray α} {n : Nat} (h : a.Shaped n) {i : Nat} (hi : i < n) (j : Nat)
    (x : α) :
    (a.setAt (i / fullPage a.shift) (i % fullPage a.shift) x).get? j =
      if i = j then some x else a.get? j := by
  rw [h.setAt_eq_modify hi, get?_modify]
  split
  · next hij =>
    subst hij
    obtain ⟨y, hy⟩ := h.exists_get? hi
    rw [hy, Option.map_some]
  · rfl

/-! ## New arrays -/

theorem newPage_spec [Memory.Allocator] {n shift : Nat} {init : Nat → α} {p : Nat} {page : Array α}
    (h : newPage n shift init p = .ok page) :
    page = ((List.range (min (fullPage shift) (n - p * fullPage shift))).map
      fun i => init (p * fullPage shift + i)).toArray := by
  unfold newPage at h
  simp only [bind, Except.bind] at h
  split at h
  · cases h
  · cases h
    rfl

/-- The pages that are made are those of all page numbers, in order. -/
theorem newPages_spec [Memory.Allocator] {n shift : Nat} {init : Nat → α} {count : Nat}
    {pages : Array (Array α)} (h : newPages n shift init count = .ok pages) :
    pages.size = count ∧
      ∀ p < count, ∃ page, pages[p]? = some page ∧ newPage n shift init p = .ok page := by
  unfold newPages at h
  induction count generalizing pages with
  | zero =>
    cases h
    exact ⟨rfl, fun p hp => absurd hp (Nat.not_lt_zero p)⟩
  | succ count ih =>
    rw [List.range_succ, List.foldlM_append] at h
    simp only [bind, Except.bind] at h
    split at h
    · cases h
    · next earlier hearlier =>
      obtain ⟨hsize, hpages⟩ := ih hearlier
      simp only [List.foldlM_cons, List.foldlM_nil, bind, Except.bind] at h
      cases hlast : newPage n shift init count with
      | error e =>
        rw [hlast] at h
        cases h
      | ok last =>
        rw [hlast] at h
        cases h
        refine ⟨by rw [Array.size_push, hsize], ?_⟩
        intro p hp
        rcases Nat.lt_succ_iff_lt_or_eq.1 hp with hlt | rfl
        · obtain ⟨page, hpage, hnew⟩ := hpages p hlt
          refine ⟨page, ?_, hnew⟩
          rw [Array.getElem?_push_lt (by omega)]
          rw [Array.getElem?_eq_getElem (by omega)] at hpage
          exact hpage
        · refine ⟨last, ?_, hlast⟩
          rw [← hsize]
          exact Array.getElem?_push_size

/-- A new array has its shape, and holds what it has been filled with. -/
theorem new_spec [Memory.Allocator] {n shift : Nat} {init : Nat → α} {a : PagedArray α}
    (h : PagedArray.new n shift init = .ok a) :
    a.Shaped n ∧ a.shift = shift ∧ ∀ i < n, a.get? i = some (init i) := by
  unfold PagedArray.new at h
  simp only [bind, Except.bind] at h
  split at h
  · cases h
  · split at h
    · cases h
    · next pages hpages =>
      cases h
      obtain ⟨hsize, hpage⟩ := newPages_spec hpages
      refine ⟨⟨rfl, hsize, ?_⟩, rfl, ?_⟩
      · intro p page hp
        have hlt : p < pageCount n shift := by
          rw [← hsize]
          exact (Array.getElem?_eq_some_iff.1 hp).1
        obtain ⟨page', hp', hnew⟩ := hpage p hlt
        rw [hp] at hp'
        cases hp'
        rw [newPage_spec hnew]
        simp
      · intro i hi
        obtain ⟨page, hp, hnew⟩ := hpage _ (div_lt_pageCount shift hi)
        have hdiv := Nat.div_add_mod' i (fullPage shift)
        rw [get?, if_pos hi]
        show (pages[i / fullPage shift]?).bind (fun page => page[i % fullPage shift]?) = _
        rw [hp, Option.bind_some, newPage_spec hnew, List.getElem?_toArray, List.getElem?_map,
          List.getElem?_range (mod_lt_page shift hi)]
        simp [hdiv]

/-! ## All elements -/

/-- Pages of `p` elements, one after the other, have each element where its index says. -/
theorem getElem?_flatten_pages {p n : Nat} (hp : 0 < p) {pages : List (Array α)}
    (hpages : ∀ (q : Nat) page, pages[q]? = some page → page.size = min p (n - q * p)) (i : Nat) :
    (pages.map Array.toList).flatten[i]? = (pages[i / p]?).bind (·[i % p]?) := by
  induction pages generalizing n i with
  | nil => simp
  | cons page pages ih =>
    have hsize : page.size = min p n := by
      simpa using hpages 0 page rfl
    have hrest : ∀ (q : Nat) later, pages[q]? = some later →
        later.size = min p ((n - p) - q * p) := by
      intro q later hq
      rw [hpages (q + 1) later hq, Nat.succ_mul]
      omega
    rw [List.map_cons, List.flatten_cons]
    by_cases hi : i < page.size
    · rw [Nat.div_eq_of_lt (by omega), Nat.mod_eq_of_lt (by omega),
        List.getElem?_append_left (by simpa using hi)]
      simp
    rw [List.getElem?_append_right (by simpa using hi), Array.length_toList, ih hrest]
    by_cases hfull : p ≤ n
    · obtain ⟨j, rfl⟩ := Nat.exists_eq_add_of_le (show p ≤ i by omega)
      rw [hsize, Nat.min_eq_left hfull, Nat.add_sub_cancel_left, Nat.add_div_left j hp,
        Nat.add_mod_left, List.getElem?_cons_succ]
    · -- the page is not full, so that there is nothing after it
      have hempty : ∀ q j : Nat, (pages[q]?).bind (·[j]?) = none := by
        intro q j
        cases hq : pages[q]? with
        | none => rfl
        | some later => simp [hrest q later hq, show n - p = 0 by omega]
      rw [hempty]
      cases hq : i / p with
      | zero =>
        have hmod : i % p = i := Nat.mod_eq_of_lt ((Nat.div_eq_zero_iff_lt hp).1 hq)
        rw [List.getElem?_cons_zero, Option.bind_some, hmod, Array.getElem?_eq_none (by omega)]
      | succ q => rw [List.getElem?_cons_succ, hempty]

/-- The list of all elements has each of them at its index. -/
theorem Shaped.getElem?_toList {a : PagedArray α} {n : Nat} (h : a.Shaped n) (i : Nat) :
    a.toList[i]? = a.get? i := by
  have hpages : ∀ (q : Nat) page, a.pages.toList[q]? = some page →
      page.size = min (fullPage a.shift) (n - q * fullPage a.shift) := by
    intro q page hq
    rw [Array.getElem?_toList] at hq
    exact h.page_eq q page hq
  unfold toList
  rw [getElem?_flatten_pages (fullPage_pos a.shift) hpages, Array.getElem?_toList]
  unfold get? pageSize
  split_ifs with hi
  · rfl
  · rw [h.size_eq, Nat.not_lt] at hi
    cases hpage : a.pages[i / fullPage a.shift]? with
    | none => rfl
    | some page =>
      have hsize := h.page_eq _ _ hpage
      have hdiv := Nat.div_add_mod' i (fullPage a.shift)
      rw [Option.bind_some, Array.getElem?_eq_none (by omega)]

end Superstep.PagedArray
