import Superstep.Proofs.Graph.Walks
import Superstep.Proofs.Machine.Failure

/-!
# Programs that spread the least value

In some programs a node takes over the least value that it hears of, tells its neighbours what has
become of it along each relationship, and sleeps until it hears of a smaller one. Values and
messages are read as elements of an ordered type, and `Relaxing` says what such a program does in a
step.

A node speaks only when its value has become smaller, so a value is right because of what has been
said in earlier supersteps. `Frontier` is the invariant that carries this over: before superstep `k`
every value is the least that walks of fewer steps carry there, and along each relationship the
target either holds what the value of the source becomes, or something smaller, or will hear of it.

Results:
* `Frontier.after`: a superstep keeps the invariant.
* `Frontier.flawless`: no step fails.
* `Frontier.active_after_eq_empty`: if no relationship makes a value smaller, no node is active once
  there have been more supersteps than nodes.
* `Frontier.isLeast_of_asleep`: when no node is active, every value is the least that any walk
  carries there.
-/

open Superstep.Graph (Carried)

namespace Superstep

variable {W M κ : Type} [LinearOrder κ]

/-! ## The least of what is heard -/

/-- What some messages are read as. -/
def heard (read : M → Option κ) (ms : List M) : Set κ := {y | ∃ m ∈ ms, read m = some y}

/-- Every message can be read. -/
def Readable (read : M → Option κ) (ms : List M) : Prop := ∀ m ∈ ms, ∃ y, read m = some y

/-- A way to combine two values that gives the smaller one. -/
def ReadsMin (read : M → Option κ) (combine : M → M → M) : Prop :=
  ∀ a b x y, read a = some x → read b = some y → read (combine a b) = some (min x y)

section Heard

variable {read : M → Option κ} {ms : List M}

omit [LinearOrder κ] in
@[simp] theorem heard_nil : heard read ([] : List M) = ∅ := by
  ext y
  simp [heard]

omit [LinearOrder κ] in
theorem heard_cons {m : M} {x : κ} (hm : read m = some x) :
    heard read (m :: ms) = insert x (heard read ms) := by
  ext y
  simp [heard, hm, eq_comm]

theorem isLeast_insert_insert {x z y : κ} {s : Set κ} (h : IsLeast (insert (min x z) s) y) :
    IsLeast (insert x (insert z s)) y := by
  obtain ⟨hmem, hlower⟩ := h
  rw [mem_lowerBounds, Set.forall_mem_insert] at hlower
  constructor
  · rcases hmem with rfl | hmem
    · rcases min_choice x z with hmin | hmin
      · exact .inl hmin
      · exact .inr (.inl hmin)
    · exact .inr (.inr hmem)
  · rw [mem_lowerBounds, Set.forall_mem_insert, Set.forall_mem_insert]
    exact ⟨hlower.1.trans (min_le_left x z), hlower.1.trans (min_le_right x z), hlower.2⟩

/-- What values are reduced to, one after the other, is read as the least of them. -/
theorem ReadsMin.isLeast_foldl {combine : M → M → M} (h : ReadsMin read combine)
    (hms : Readable read ms) {a : M} {x : κ} (ha : read a = some x) :
    ∃ y, read (ms.foldl combine a) = some y ∧ IsLeast (insert x (heard read ms)) y := by
  induction ms generalizing a x with
  | nil => exact ⟨x, ha, by simp⟩
  | cons m ms ih =>
    obtain ⟨hm, hms⟩ := List.forall_mem_cons.1 hms
    obtain ⟨z, hz⟩ := hm
    obtain ⟨y, hy, hleast⟩ := ih hms (h a m x z ha hz)
    refine ⟨y, hy, ?_⟩
    rw [heard_cons hz]
    exact isLeast_insert_insert hleast

/-- Keeping all messages or the least of them says of each message that it or a smaller one has
    arrived, and nothing that has not arrived. -/
theorem heard_collect [Message M] {r : Reduction M}
    (hr : r = .keep ∨ (r = .builtin .min ∧ ReadsMin read (Message.reduce .min)))
    (hms : Readable read ms) :
    Readable read (r.collect ms) ∧ heard read (r.collect ms) ⊆ heard read ms ∧
      ∀ y ∈ heard read ms, ∃ y' ∈ heard read (r.collect ms), y' ≤ y := by
  rcases hr with rfl | ⟨rfl, hmin⟩
  · rw [Reduction.collect_of_not_combining rfl]
    exact ⟨hms, subset_rfl, fun y hy => ⟨y, hy, le_rfl⟩⟩
  · cases ms with
    | nil =>
      rw [Reduction.collect_nil]
      exact ⟨hms, subset_rfl, fun y hy => ⟨y, hy, le_rfl⟩⟩
    | cons m rest =>
      obtain ⟨hm, hrest⟩ := List.forall_mem_cons.1 hms
      obtain ⟨x, hx⟩ := hm
      obtain ⟨y, hy, hleast⟩ := hmin.isLeast_foldl hrest hx
      rw [Reduction.collect_cons_of_combining rfl, heard_cons hx]
      have hy : read (rest.foldl (Reduction.apply (.builtin .min)) m) = some y := hy
      refine ⟨List.forall_mem_singleton.2 ⟨y, hy⟩, ?_, ?_⟩
      · rw [heard_cons hy, heard_nil, Set.insert_subset_iff]
        exact ⟨hleast.1, Set.empty_subset _⟩
      · intro z hz
        exact ⟨y, by rw [heard_cons hy]; exact Set.mem_insert y _, hleast.2 hz⟩

end Heard

/-! ## What the programs do -/

/-- In a step without a failure the node `u` takes over the value `y`, tells its neighbours what it
    becomes along its relationships if `tells` holds, and sleeps. -/
structure Program.Settles (p : Program W M M) (read : M → Option κ) (along : W → κ → κ)
    (f : Frame M M) (t : Nat) (u : NodeId) (y : κ) (tells : Prop) : Prop where
  value : read (p.outcome f t u.index).value = some y
  halt : (p.outcome f t u.index).halt = true
  failure : (p.outcome f t u.index).failure = none
  silent : p.letters f t u.index ≠ [] → tells
  letters : ∀ l ∈ p.letters f t u.index, ∃ r ∈ p.graph.relationships u,
    l.1 = r.1 ∧ read l.2 = some (along r.2 y)
  spoken : tells → ∀ r ∈ p.graph.relationships u, ∃ l ∈ p.letters f t u.index,
    l.1 = r.1 ∧ read l.2 = some (along r.2 y)

namespace Program.Settles

variable {p : Program W M M} {read : M → Option κ} {along : W → κ → κ} {f : Frame M M} {t : Nat}
  {u : NodeId} {y : κ} {tells : Prop}

omit [LinearOrder κ] in
/-- A node that tells each neighbour something settles. -/
theorem of_told (say : NodeId × W → M) (htells : tells) {m : M} {sends : List (Send M)}
    (hread : read m = some y) (houtcome : p.outcome f t u.index = ⟨m, sends, true, none⟩)
    (hsends : sends.flatMap (Send.expand p.graph u) =
      (p.graph.relationships u).map fun r => (r.1, say r))
    (hsay : ∀ r ∈ p.graph.relationships u, read (say r) = some (along r.2 y)) :
    p.Settles read along f t u y tells := by
  have hletters : p.letters f t u.index =
      (p.graph.relationships u).map fun r => (r.1, say r) := by
    rw [Program.letters, houtcome, NodeId.ofIndex_index]
    exact hsends
  refine ⟨by rwa [houtcome], by rw [houtcome], by rw [houtcome], fun _ => htells, ?_, ?_⟩
  · intro l hl
    rw [hletters] at hl
    obtain ⟨r, hr, rfl⟩ := List.mem_map.1 hl
    exact ⟨r, hr, rfl, hsay r hr⟩
  · intro _ r hr
    rw [hletters]
    exact ⟨_, List.mem_map_of_mem hr, rfl, hsay r hr⟩

omit [LinearOrder κ] in
theorem of_silent (htells : ¬ tells) {m : M} (hread : read m = some y)
    (houtcome : p.outcome f t u.index = ⟨m, [], true, none⟩) :
    p.Settles read along f t u y tells := by
  have hletters : p.letters f t u.index = [] := by
    rw [Program.letters, houtcome]
    rfl
  refine ⟨by rwa [houtcome], by rw [houtcome], by rw [houtcome], fun h => absurd hletters h, ?_,
    fun h => absurd h htells⟩
  intro l hl
  rw [hletters] at hl
  cases hl

end Program.Settles

/-- A program whose nodes spread the least value. Node `v` starts with the value `start v`; the
    nodes of `origin` tell their neighbours at first, and what the others would tell them is no
    news. -/
structure Relaxing (p : Program W M M) (read : M → Option κ) (along : W → κ → κ)
    (start : NodeId → κ) (origin : NodeId → Prop) : Prop where
  closed : p.graph.Closed
  monotone : ∀ u, p.graph.IsNode u → ∀ r ∈ p.graph.relationships u, Monotone (along r.2)
  init : ∀ v, p.graph.IsNode v → read (p.computation.init p.graph v) = some (start v)
  noNews : ∀ u, p.graph.IsNode u → ¬ origin u → ∀ r ∈ p.graph.relationships u,
    start r.1 ≤ along r.2 (start u)
  step : ∀ (f : Frame M M) (t : Nat) (u : NodeId) (x : κ), p.graph.IsNode u →
    read (f.value u.index) = some x → Readable read (f.inbox u.index) →
    (t = 0 → f.inbox u.index = []) →
    ∃ y, IsLeast (insert x (heard read (f.inbox u.index))) y ∧
      p.Settles read along f t u y (y < x ∨ (t = 0 ∧ origin u))

/-- What holds before superstep `k`. -/
structure Frontier (p : Program W M M) (read : M → Option κ) (along : W → κ → κ)
    (start : NodeId → κ) (origin : NodeId → Prop) (k : Nat) (f : Frame M M) : Prop where
  proper : f.Proper p
  awake : k = 0 → ∀ u, p.graph.IsNode u → origin u → u.index ∈ f.active
  noMail : k = 0 → ∀ i, f.inbox i = []
  /-- Every value is the least that walks of fewer than `k` steps carry to the node. -/
  value : ∀ v, p.graph.IsNode v →
    ∃ x, read (f.value v.index) = some x ∧ IsLeast (p.graph.Carried along start (k - 1) v) x
  /-- What a node will hear of is carried there by a walk of at most `k` steps. -/
  inbox : ∀ v, p.graph.IsNode v → Readable read (f.inbox v.index) ∧
    heard read (f.inbox v.index) ⊆ p.graph.Carried along start k v
  /-- The target of a relationship holds or will hear of what the value of the source becomes,
      unless the source has still to speak for the first time. -/
  edges : ∀ u, p.graph.IsNode u → ∀ r ∈ p.graph.relationships u, ∀ x,
    read (f.value u.index) = some x → (k = 0 ∧ origin u) ∨
      ∃ y, (read (f.value r.1.index) = some y ∨ y ∈ heard read (f.inbox r.1.index)) ∧
        y ≤ along r.2 x

namespace Frontier

variable {p : Program W M M} {read : M → Option κ} {along : W → κ → κ} {start : NodeId → κ}
  {origin : NodeId → Prop} {k : Nat} {f : Frame M M} {u v : NodeId}
  (hp : Relaxing p read along start origin) (hf : Frontier p read along start origin k f)
include hp hf

/-- The least of the value of a node and of what it hears is the least that walks of at most `k`
    steps carry there. -/
theorem isLeast_carried (hv : p.graph.IsNode v) {x y : κ} (hx : read (f.value v.index) = some x)
    (hy : IsLeast (insert x (heard read (f.inbox v.index))) y) :
    IsLeast (p.graph.Carried along start k v) y := by
  obtain ⟨x', hx', hleast⟩ := hf.value v hv
  obtain rfl : x = x' := Option.some.inj (hx.symm.trans hx')
  constructor
  · rcases hy.1 with rfl | hheard
    · exact Graph.carried_mono (Nat.sub_le k 1) hleast.1
    · exact (hf.inbox v hv).2 hheard
  · intro z hz
    have hyx : y ≤ x := hy.2 (Set.mem_insert x _)
    cases k with
    | zero => exact hyx.trans (hleast.2 hz)
    | succ k =>
      rcases Graph.carried_succ.1 hz with ⟨-, rfl⟩ | ⟨u, r, hr, z', hz', rfl, rfl⟩
      · exact hyx.trans (hleast.2 (Graph.start_mem_carried hv _))
      · -- the last step of the walk: its source holds no more than the walk carries there
        have hu := hp.closed.isNode_of_carried hz'
        obtain ⟨xu, hxu, hleastu⟩ := hf.value u hu
        obtain ⟨hzero, -⟩ | ⟨w, hw, hle⟩ := hf.edges u hu r hr xu hxu
        · exact absurd hzero (Nat.succ_ne_zero k)
        · have hyw : y ≤ w := by
            rcases hw with hw | hw
            · obtain rfl : x = w := Option.some.inj (hx.symm.trans hw)
              exact hyx
            · exact hy.2 (Set.mem_insert_of_mem x hw)
          exact hyw.trans (hle.trans (hp.monotone u hu r hr (hleastu.2 hz')))

/-- What a node holds after the superstep. A node that is not active hears nothing. -/
theorem exists_value_after [Message M] (hv : p.graph.IsNode v) (arrived : List (NodeId × M)) :
    ∃ x y, read (f.value v.index) = some x ∧
      read ((p.after f k arrived).value v.index) = some y ∧
      IsLeast (insert x (heard read (f.inbox v.index))) y ∧
      ((v.index ∈ f.active ∧ p.Settles read along f k v y (y < x ∨ (k = 0 ∧ origin v))) ∨
        (v.index ∉ f.active ∧ y = x)) := by
  obtain ⟨x, hx, -⟩ := hf.value v hv
  have hvalue : (p.after f k arrived).value v.index =
      if v.index ∈ f.active then (p.outcome f k v.index).value else f.value v.index := rfl
  rw [hvalue]
  by_cases hactive : v.index ∈ f.active
  · obtain ⟨y, hy, hsettles⟩ := hp.step f k v x hv hx (hf.inbox v hv).1
      fun hzero => hf.noMail hzero _
    refine ⟨x, y, hx, ?_, hy, .inl ⟨hactive, hsettles⟩⟩
    rw [if_pos hactive]
    exact hsettles.value
  · have hempty : f.inbox v.index = [] := by
      by_contra hne
      exact hactive (hf.proper.mem_active v.index hne)
    refine ⟨x, x, hx, ?_, ?_, .inr ⟨hactive, rfl⟩⟩
    · rw [if_neg hactive]
      exact hx
    · rw [hempty, heard_nil]
      exact ⟨Set.mem_insert x ∅, by simp⟩

omit hp in
theorem exists_of_active {i : Nat} (hi : i ∈ f.active) :
    ∃ u : NodeId, p.graph.IsNode u ∧ u.index = i :=
  p.graph.exists_node (hf.proper.active_lt i hi)

theorem exists_settles {i : Nat} (hi : i ∈ f.active) :
    ∃ u x y, p.graph.IsNode u ∧ u.index = i ∧ read (f.value i) = some x ∧
      IsLeast (insert x (heard read (f.inbox i))) y ∧
      p.Settles read along f k u y (y < x ∨ (k = 0 ∧ origin u)) := by
  obtain ⟨u, hu, rfl⟩ := hf.exists_of_active hi
  obtain ⟨x, hx, -⟩ := hf.value u hu
  obtain ⟨y, hy, hsettles⟩ := hp.step f k u x hu hx (hf.inbox u hu).1
    fun hzero => hf.noMail hzero _
  exact ⟨u, x, y, hu, rfl, hx, hy, hsettles⟩

theorem flawless : p.Flawless f k := by
  rw [Program.flawless_iff]
  intro i hi e hfails
  obtain ⟨u, x, y, hu, rfl, -, -, hsettles⟩ := hf.exists_settles hp hi
  refine Program.not_fails ?_ hsettles.failure ?_ hfails
  · rw [NodeId.ofIndex_index]
    exact hp.closed.readable u (Graph.mem_nodes_iff.2 hu)
  · intro l hl
    obtain ⟨r, hr, htarget, -⟩ := hsettles.letters l hl
    exact htarget ▸ hp.closed.isNode hu hr

section Superstep

variable {arrived : List (NodeId × M)} (harrived : arrived.Perm (p.traffic f k))
include harrived

theorem exists_of_arrived {l : NodeId × M} (hl : l ∈ arrived) :
    ∃ u, ∃ r ∈ p.graph.relationships u, p.graph.IsNode u ∧ l.1 = r.1 ∧
      ∃ y ∈ p.graph.Carried along start k u, read l.2 = some (along r.2 y) := by
  obtain ⟨i, hi, hl⟩ := List.mem_flatMap.1 (harrived.mem_iff.1 hl)
  obtain ⟨u, x, y, hu, rfl, hx, hy, hsettles⟩ := hf.exists_settles hp (Program.mem_nodes.1 hi).2
  obtain ⟨r, hr, htarget, hread⟩ := hsettles.letters l hl
  exact ⟨u, r, hr, hu, htarget, y, (hf.isLeast_carried hp hu hx hy).1, hread⟩

/-- What arrives at a node is carried there by a walk of one more step. -/
theorem arrivals_spec (v : NodeId) : Readable read (arrivals arrived v.index) ∧
    heard read (arrivals arrived v.index) ⊆ p.graph.Carried along start (k + 1) v := by
  have hmessage : ∀ m ∈ arrivals arrived v.index,
      ∃ y ∈ p.graph.Carried along start (k + 1) v, read m = some y := by
    intro m hm
    obtain ⟨l, hl, rfl⟩ := List.mem_map.1 hm
    obtain ⟨hl, hv⟩ := List.mem_filter.1 hl
    have hv : l.1 = v := NodeId.index_inj.1 (of_decide_eq_true hv)
    obtain ⟨u, r, hr, hu, htarget, y, hy, hread⟩ := hf.exists_of_arrived hp harrived hl
    refine ⟨_, Graph.carried_succ.2 (.inr ⟨u, r, hr, y, hy, ?_, rfl⟩), hread⟩
    rw [← htarget, hv]
  constructor
  · intro m hm
    obtain ⟨y, -, hread⟩ := hmessage m hm
    exact ⟨y, hread⟩
  · rintro y ⟨m, hm, hread⟩
    obtain ⟨y', hy', hread'⟩ := hmessage m hm
    obtain rfl : y = y' := Option.some.inj (hread.symm.trans hread')
    exact hy'

omit hp hf [LinearOrder κ] in
theorem mem_heard_arrivals {y : κ} {tells : Prop} (hu : p.graph.IsNode u)
    (hactive : u.index ∈ f.active) (h : p.Settles read along f k u y tells) (htells : tells)
    {r : NodeId × W} (hr : r ∈ p.graph.relationships u) :
    along r.2 y ∈ heard read (arrivals arrived r.1.index) := by
  obtain ⟨l, hl, htarget, hread⟩ := h.spoken htells r hr
  have hsent : l ∈ arrived :=
    harrived.mem_iff.2 (List.mem_flatMap.2 ⟨u.index, Program.mem_nodes.2 ⟨hu, hactive⟩, hl⟩)
  exact ⟨l.2, List.mem_map_of_mem (List.mem_filter.2 ⟨hsent, by simp [htarget]⟩), hread⟩

variable [Message M]
  (hreduction : p.reduction = .keep ∨
    (p.reduction = .builtin .min ∧ ReadsMin read (Message.reduce .min)))
include hreduction

/-- After the superstep the target of a relationship holds or will hear of what the value of the
    source has become. -/
theorem edges_after (hu : p.graph.IsNode u) {r : NodeId × W}
    (hr : r ∈ p.graph.relationships u) {x : κ}
    (hx : read ((p.after f k arrived).value u.index) = some x) :
    ∃ y, (read ((p.after f k arrived).value r.1.index) = some y ∨
      y ∈ heard read ((p.after f k arrived).inbox r.1.index)) ∧ y ≤ along r.2 x := by
  obtain ⟨x₀, x', hx₀, hx', hleast, hnow⟩ := hf.exists_value_after hp hu arrived
  obtain rfl : x = x' := Option.some.inj (hx.symm.trans hx')
  obtain ⟨-, -, hcollected⟩ := heard_collect hreduction (hf.arrivals_spec hp harrived r.1).1
  have htold : ∀ {tells : Prop}, u.index ∈ f.active → p.Settles read along f k u x tells → tells →
      ∃ y, (read ((p.after f k arrived).value r.1.index) = some y ∨
        y ∈ heard read ((p.after f k arrived).inbox r.1.index)) ∧ y ≤ along r.2 x := by
    intro tells hactive hsettles htells
    obtain ⟨y, hy, hle⟩ := hcollected _ (mem_heard_arrivals harrived hu hactive hsettles htells hr)
    exact ⟨y, .inr hy, hle⟩
  -- a source whose value is as before has told it before
  have hkept : x = x₀ → ¬ (k = 0 ∧ origin u) →
      ∃ y, (read ((p.after f k arrived).value r.1.index) = some y ∨
        y ∈ heard read ((p.after f k arrived).inbox r.1.index)) ∧ y ≤ along r.2 x := by
    rintro rfl hspoken
    obtain ⟨z, hz, hle⟩ := (hf.edges u hu r hr x hx₀).resolve_left hspoken
    obtain ⟨w₀, w, hw₀, hw, hwleast, -⟩ :=
      hf.exists_value_after hp (hp.closed.isNode hu hr) arrived
    refine ⟨w, .inl hw, le_trans ?_ hle⟩
    rcases hz with hz | hz
    · obtain rfl : w₀ = z := Option.some.inj (hw₀.symm.trans hz)
      exact hwleast.2 (Set.mem_insert w₀ _)
    · exact hwleast.2 (Set.mem_insert_of_mem w₀ hz)
  rcases hnow with ⟨hactive, hsettles⟩ | ⟨hasleep, heq⟩
  · by_cases htells : x < x₀ ∨ (k = 0 ∧ origin u)
    · exact htold hactive hsettles htells
    · rw [not_or, not_lt] at htells
      exact hkept ((hleast.2 (Set.mem_insert x₀ _)).antisymm htells.1) htells.2
  · exact hkept heq fun h => hasleep (hf.awake h.1 u hu h.2)

/-- A superstep keeps the invariant, in whatever order the messages arrive. -/
theorem after : Frontier p read along start origin (k + 1) (p.after f k arrived) where
  proper := hf.proper.after fun l hl =>
    Program.traffic_lt (hf.flawless hp) l (harrived.mem_iff.1 hl)
  awake h := absurd h (Nat.succ_ne_zero k)
  noMail h := absurd h (Nat.succ_ne_zero k)
  value v hv := by
    obtain ⟨x, y, hx, hy, hleast, -⟩ := hf.exists_value_after hp hv arrived
    exact ⟨y, hy, hf.isLeast_carried hp hv hx hleast⟩
  inbox v _ := by
    obtain ⟨hread, hcarried⟩ := hf.arrivals_spec hp harrived v
    obtain ⟨hreadable, hsub, -⟩ := heard_collect hreduction hread
    exact ⟨hreadable, hsub.trans hcarried⟩
  edges u hu r hr x hx := .inr (hf.edges_after hp harrived hreduction hu hr hx)

end Superstep

/-! ## The end -/

omit hp in
/-- A node is active after the superstep only if it has been told something. -/
theorem traffic_ne_nil [Message M] {arrived : List (NodeId × M)}
    (harrived : arrived.Perm (p.traffic f k)) (hp : Relaxing p read along start origin)
    (hactive : (p.after f k arrived).active ≠ ∅) : p.traffic f k ≠ [] := by
  obtain ⟨i, hi⟩ := Finset.nonempty_iff_ne_empty.2 hactive
  rcases Program.mem_active_after.1 hi with ⟨hi, hhalt⟩ | ⟨-, l, hl, -⟩
  · obtain ⟨u, x, y, -, rfl, -, -, hsettles⟩ := hf.exists_settles hp hi
    rw [hsettles.halt] at hhalt
    cases hhalt
  · exact List.ne_nil_of_mem (harrived.mem_iff.1 hl)

/-- If no relationship makes a value smaller, nothing becomes smaller any more once there have been
    as many supersteps as nodes, and then no node is active. -/
theorem active_after_eq_empty [Message M] {arrived : List (NodeId × M)}
    (harrived : arrived.Perm (p.traffic f k))
    (hup : ∀ u, p.graph.IsNode u → ∀ r ∈ p.graph.relationships u, ∀ x, x ≤ along r.2 x)
    (hk : p.nodeCount ≤ k) (hpos : 0 < p.nodeCount) : (p.after f k arrived).active = ∅ := by
  by_contra hne
  obtain ⟨l, hl⟩ := List.exists_mem_of_ne_nil _ (hf.traffic_ne_nil harrived hp hne)
  obtain ⟨i, hi, hl⟩ := List.mem_flatMap.1 hl
  obtain ⟨u, x, y, hu, rfl, hx, hy, hsettles⟩ := hf.exists_settles hp (Program.mem_nodes.1 hi).2
  rcases hsettles.silent (List.ne_nil_of_mem hl) with hlt | ⟨hzero, -⟩
  · obtain ⟨x', hx', hleast⟩ := hf.value u hu
    obtain rfl : x = x' := Option.some.inj (hx.symm.trans hx')
    obtain ⟨y', hy', hle⟩ := Graph.exists_le_of_carried hp.closed hp.monotone hup
      (hf.isLeast_carried hp hu hx hy).1
    have hbound : p.graph.nodeCount.toNat - 1 ≤ k - 1 := Nat.sub_le_sub_right hk 1
    exact absurd (hlt.trans_le ((hleast.2 (Graph.carried_mono hbound hy')).trans hle)) (lt_irrefl y)
  · omega

omit hp in
theorem le_start (hv : p.graph.IsNode v) {x : κ} (hx : read (f.value v.index) = some x) :
    x ≤ start v := by
  obtain ⟨x', hx', hleast⟩ := hf.value v hv
  obtain rfl : x = x' := Option.some.inj (hx.symm.trans hx')
  exact hleast.2 (Graph.start_mem_carried hv _)

omit hp in
/-- While no node is active, no relationship would make the value of its target smaller. -/
theorem le_along_of_asleep (hasleep : f.active = ∅) (hu : p.graph.IsNode u) {r : NodeId × W}
    (hr : r ∈ p.graph.relationships u) {x y : κ} (hx : read (f.value u.index) = some x)
    (hy : read (f.value r.1.index) = some y) : y ≤ along r.2 x := by
  have hinbox : f.inbox r.1.index = [] := by
    by_contra hne
    have := hf.proper.mem_active _ hne
    rw [hasleep] at this
    cases this
  rcases hf.edges u hu r hr x hx with ⟨hzero, horigin⟩ | ⟨z, hz, hle⟩
  · have := hf.awake hzero u hu horigin
    rw [hasleep] at this
    cases this
  · rw [hinbox, heard_nil] at hz
    obtain rfl : y = z := Option.some.inj (hy.symm.trans (hz.resolve_right id))
    exact hle

/-- While no node is active, no walk carries less to a node than the node holds. -/
theorem le_carried_of_asleep (hasleep : f.active = ∅) {j : Nat} (hv : p.graph.IsNode v) {x y : κ}
    (hx : read (f.value v.index) = some x) (hy : y ∈ p.graph.Carried along start j v) :
    x ≤ y := by
  induction j generalizing v x y with
  | zero =>
    rw [Graph.carried_zero] at hy
    exact (hf.le_start hv hx).trans_eq hy.2.symm
  | succ j ih =>
    rcases Graph.carried_succ.1 hy with ⟨-, rfl⟩ | ⟨u, r, hr, z, hz, rfl, rfl⟩
    · exact hf.le_start hv hx
    · have hu := hp.closed.isNode_of_carried hz
      obtain ⟨xu, hxu, -⟩ := hf.value u hu
      exact (hf.le_along_of_asleep hasleep hu hr hxu hx).trans
        (hp.monotone u hu r hr (ih hu hxu hz))

/-- When no node is active, every value is the least that any walk carries to the node. -/
theorem isLeast_of_asleep (hasleep : f.active = ∅) (hv : p.graph.IsNode v) :
    ∃ x, read (f.value v.index) = some x ∧
      IsLeast {y | ∃ j, y ∈ p.graph.Carried along start j v} x := by
  obtain ⟨x, hx, hleast⟩ := hf.value v hv
  exact ⟨x, hx, ⟨_, hleast.1⟩, fun y ⟨_, hy⟩ => hf.le_carried_of_asleep hp hasleep hv hx hy⟩

end Frontier

end Superstep
