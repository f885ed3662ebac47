import Mathlib.Algebra.Order.Monoid.Unbundled.WithTop
import Mathlib.Order.Bounds.Lattice
import Superstep.Algorithm.ShortestPaths
import Superstep.Proofs.Run.Relaxation

/-!
# What the search for shortest paths finds

The search for shortest paths is Bellman and Ford's algorithm, in rounds. It does not depend on how
distances are represented, as long as they can be read as elements of an ordered type: `Reading`
lists what is used of them. Addition need be neither associative nor strictly monotone, and a
representation may have values that are not read at all, such as what is not a number.

A walk has the length that one gets by adding its weights from left to right, starting at zero.
After superstep `k` each node holds the least length of a walk of at most `k` relationships from the
source. Weights may be negative; if none of them makes a distance smaller, the search ends with the
least lengths of all walks.

Result: `shortestPaths_least`.
-/

namespace Superstep

/-- How distances are read as elements of an ordered type whose largest element is infinity. -/
structure Distance.Reading (D W κ : Type) [Weight W] [Distance D W] [Message D] [LinearOrder κ]
    [OrderTop κ] where
  /-- What a distance is read as, if it can be read. -/
  read : D → Option κ
  /-- What adding a weight does to a distance that is read. -/
  along : W → κ → κ
  zero : κ
  read_zero : read (Distance.zero W) = some zero
  read_infinity : read (Distance.infinity W) = some ⊤
  read_add : ∀ d w x, Weight.isFinite w → read d = some x →
    read (Distance.add d w) = some (along w x)
  monotone : ∀ w, Weight.isFinite w → Monotone (along w)
  /-- Infinity stays infinite. -/
  along_top : ∀ w, Weight.isFinite w → along w ⊤ = ⊤
  less_iff : ∀ a b x y, read a = some x → read b = some y →
    (Distance.less W a b = true ↔ x < y)
  smaller : ReadsMin read (Distance.smaller W)
  reduce : ReadsMin read (Message.reduce .min)

namespace ShortestPaths

variable {W D κ : Type} [Weight W] [Distance D W] [Message D] [LinearOrder κ] [OrderTop κ]

/-- The length of a walk: its weights are added from left to right, starting at zero. -/
def length (steps : List (NodeId × W)) : D :=
  steps.foldl (fun d r => Distance.add d r.2) (Distance.zero W)

/-- The lengths of the walks of at most `k` relationships from the source to a node, with
    infinity. -/
def lengths (reading : Distance.Reading D W κ) (g : Graph W) (source : NodeId) (k : Nat)
    (v : NodeId) : Set κ :=
  insert ⊤ {y | ∃ steps, g.Walk source steps v ∧ steps.length ≤ k ∧
    reading.read (length steps) = some y}

/-- The distance at which a node starts. -/
def start (reading : Distance.Reading D W κ) (source u : NodeId) : κ :=
  if u = source then reading.zero else ⊤

/-- All weights of a graph are finite. -/
def FiniteWeights (g : Graph W) : Prop :=
  ∀ u, g.IsNode u → ∀ r ∈ g.relationships u, Weight.isFinite r.2 = true

variable {reading : Distance.Reading D W κ}

/-! ## Lengths of walks -/

/-- A distance to which finite weights are added is read as what they make of it. -/
theorem read_foldl_add {steps : List (NodeId × W)}
    (hfinite : ∀ r ∈ steps, Weight.isFinite r.2 = true) {d : D} {x : κ}
    (hd : reading.read d = some x) :
    reading.read (steps.foldl (fun d r => Distance.add d r.2) d) =
      some (Graph.carry reading.along x steps) := by
  induction steps generalizing d x with
  | nil => exact hd
  | cons r steps ih =>
    rw [List.forall_mem_cons] at hfinite
    exact ih hfinite.2 (reading.read_add d r.2 x hfinite.1 hd)

theorem carry_top {steps : List (NodeId × W)}
    (hfinite : ∀ r ∈ steps, Weight.isFinite r.2 = true) :
    Graph.carry reading.along ⊤ steps = ⊤ := by
  induction steps with
  | nil => rfl
  | cons r steps ih =>
    rw [List.forall_mem_cons] at hfinite
    show Graph.carry reading.along (reading.along r.2 ⊤) steps = ⊤
    rw [reading.along_top r.2 hfinite.1]
    exact ih hfinite.2

section Lengths

variable {g : Graph W} {source v : NodeId} {k : Nat} (hclosed : g.Closed)
  (hfinite : FiniteWeights g)
include hclosed hfinite

theorem finite_steps {u : NodeId} {steps : List (NodeId × W)} (hu : g.IsNode u)
    (hwalk : g.Walk u steps v) : ∀ r ∈ steps, Weight.isFinite r.2 = true := by
  intro r hr
  obtain ⟨x, hx, hr⟩ := (hwalk.steps_spec hclosed hu).2 r hr
  exact hfinite x hx r hr

/-- Walks from other nodes than the source carry infinity, which is no less than any length. -/
theorem carried_subset_lengths :
    g.Carried reading.along (start reading source) k v ⊆ lengths reading g source k v := by
  rintro y ⟨u, steps, hu, hwalk, hlength, rfl⟩
  have hsteps := finite_steps hclosed hfinite hu hwalk
  unfold start
  split
  · next heq =>
    subst heq
    exact .inr ⟨steps, hwalk, hlength, read_foldl_add hsteps reading.read_zero⟩
  · exact .inl (carry_top hsteps)

variable (hsource : g.IsNode source)
include hsource

theorem mem_carried {y : κ} {steps : List (NodeId × W)} (hwalk : g.Walk source steps v)
    (hlength : steps.length ≤ k) (hy : reading.read (length steps) = some y) :
    y ∈ g.Carried reading.along (start reading source) k v := by
  refine ⟨source, steps, hsource, hwalk, hlength, ?_⟩
  have hcarry := read_foldl_add (finite_steps hclosed hfinite hsource hwalk) reading.read_zero
  rw [start, if_pos rfl]
  exact Option.some.inj (hcarry.symm.trans hy)

theorem isLeast_lengths {y : κ}
    (hy : IsLeast (g.Carried reading.along (start reading source) k v) y) :
    IsLeast (lengths reading g source k v) y := by
  refine ⟨carried_subset_lengths hclosed hfinite hy.1, ?_⟩
  rintro z (rfl | ⟨steps, hwalk, hlength, hz⟩)
  · exact le_top
  · exact hy.2 (mem_carried hclosed hfinite hsource hwalk hlength hz)

theorem isLeast_exists_lengths {y : κ}
    (hy : IsLeast {y | ∃ k, y ∈ g.Carried reading.along (start reading source) k v} y) :
    IsLeast {y | ∃ k, y ∈ lengths reading g source k v} y := by
  obtain ⟨⟨k, hcarried⟩, hlower⟩ := hy
  refine ⟨⟨k, carried_subset_lengths hclosed hfinite hcarried⟩, ?_⟩
  rintro z ⟨j, rfl | ⟨steps, hwalk, hlength, hz⟩⟩
  · exact le_top
  · exact hlower ⟨j, mem_carried hclosed hfinite hsource hwalk hlength hz⟩

end Lengths

/-! ## The search -/

section Step

variable {p : Program W D D} {source : NodeId} (hp : p.computation = computation source)
  {f : Frame D D} {t : Nat} {u : NodeId}

/-- The distance that a node takes over, if it is offered a shorter one, or the one that it has. -/
def settled (W : Type) [Distance D W] (f : Frame D D) (u : NodeId) : D :=
  if Distance.less W (shortest (W := W) (f.inbox u.index)) (f.value u.index) then
    shortest (W := W) (f.inbox u.index)
  else f.value u.index

omit [Weight W] [Message D] in
include hp in
theorem outcome_eq (hclosed : p.graph.Closed) (hu : p.graph.IsNode u) :
    p.outcome f t u.index =
      if Distance.less W (shortest (W := W) (f.inbox u.index)) (f.value u.index) = true ∨
        (t = 0 ∧ u = source) then
        ⟨settled W f u, (p.graph.relationships u).map fun r =>
          .to r.1 (Distance.add (settled W f u) r.2), true, none⟩
      else ⟨settled W f u, [], true, none⟩ := by
  have hfault : p.graph.fault? u = none := hclosed.readable u (Graph.mem_nodes_iff.2 hu)
  rw [Program.outcome, hp]
  simp only [computation, step, offers, NodeView.isInitial, NodeView.fault?, NodeId.ofIndex_index,
    hfault, Option.map_none, Bool.or_eq_true, Bool.and_eq_true, decide_eq_true_eq]
  rfl

/-- A node settles on the least of the distance that it has and of those that it is offered. -/
theorem read_settled (hread : Readable reading.read (f.inbox u.index)) {x : κ}
    (hx : reading.read (f.value u.index) = some x) :
    ∃ y, reading.read (settled W f u) = some y ∧
      IsLeast (insert x (heard reading.read (f.inbox u.index))) y ∧
      (Distance.less W (shortest (W := W) (f.inbox u.index)) (f.value u.index) = true ↔
        y < x) := by
  obtain ⟨z, hz, hleast⟩ := reading.smaller.isLeast_foldl hread reading.read_infinity
  have hless := reading.less_iff _ _ z x hz hx
  have hmin : IsLeast (insert x (heard reading.read (f.inbox u.index))) (min x z) := by
    have hinsert := hleast.insert x
    refine ⟨?_, fun y hy => hinsert.2 (hy.imp_right .inr)⟩
    rcases hinsert.1 with heq | heq | hheard
    · exact .inl heq
    · -- nothing is larger than infinity
      exact .inl (le_antisymm (min_le_left x z) (heq ▸ le_top))
    · exact .inr hheard
  refine ⟨min x z, ?_, hmin, hless.trans ?_⟩
  · unfold settled
    split
    · next h => rw [min_eq_right (hless.1 h).le]; exact hz
    · next h => rw [min_eq_left (not_lt.1 fun hlt => h (hless.2 hlt))]; exact hx
  · rw [min_lt_iff, or_iff_right (lt_irrefl x)]

include hp in
theorem exists_settles (hclosed : p.graph.Closed) (hfinite : FiniteWeights p.graph)
    (hu : p.graph.IsNode u) (hread : Readable reading.read (f.inbox u.index)) {x : κ}
    (hx : reading.read (f.value u.index) = some x) :
    ∃ y, IsLeast (insert x (heard reading.read (f.inbox u.index))) y ∧
      p.Settles reading.read reading.along f t u y (y < x ∨ (t = 0 ∧ u = source)) := by
  obtain ⟨y, hy, hleast, hless⟩ := read_settled hread hx
  have houtcome := outcome_eq hp (f := f) (t := t) hclosed hu
  simp only [hless] at houtcome
  refine ⟨y, hleast, ?_⟩
  by_cases htells : y < x ∨ (t = 0 ∧ u = source)
  · rw [if_pos htells] at houtcome
    refine .of_told (fun r => Distance.add (settled W f u) r.2) htells hy houtcome ?_ fun r hr =>
      reading.read_add _ _ _ (hfinite u hu r hr) hy
    rw [List.flatMap_map, List.map_eq_flatMap]
    rfl
  · rw [if_neg htells] at houtcome
    exact .of_silent htells hy houtcome

end Step

theorem relaxing {p : Program W D D} {source : NodeId} (hp : p.computation = computation source)
    (hclosed : p.graph.Closed) (hfinite : FiniteWeights p.graph) :
    Relaxing p reading.read reading.along (start reading source) (· = source) where
  closed := hclosed
  monotone u hu r hr := reading.monotone r.2 (hfinite u hu r hr)
  init v _ := by
    rw [hp]
    unfold start computation
    dsimp only
    split
    · exact reading.read_zero
    · exact reading.read_infinity
  noNews u hu hne r hr := by
    rw [start, start, if_neg hne, reading.along_top r.2 (hfinite u hu r hr)]
    exact le_top
  step _ _ _ _ hu hx hread _ := exists_settles hp hclosed hfinite hu hread hx

/-- A run relaxes distances if the source is active at first and messages are kept or reduced to the
    smallest one. -/
theorem relaxes {r : Run W D D} {source : NodeId}
    (hcomputation : r.computation = computation source)
    (hcombiner : r.config.combiner = .min ∨ r.config.combiner = .none)
    (hsource : source.index ∈ r.initialNodes) (hclosed : r.graph.Closed)
    (hfinite : FiniteWeights r.graph) :
    r.Relaxes reading.read reading.along (start reading source) (· = source) where
  relaxing := relaxing hcomputation hclosed hfinite
  awake _ _ heq := heq ▸ hsource
  reduction := Run.reduction_of_combiner (by rw [hcomputation]; rfl) hcombiner reading.reduce

end ShortestPaths

/-- A run of the search for shortest paths on a graph whose weights are finite, in which the source
    is active at first, with the messages kept or reduced to the smallest one, under any schedule.
    After superstep `k` the distance of a node is the least length of a walk of at most `k`
    relationships from the source to it, or infinity. If no weight of the graph makes a distance
    smaller, the run fits in memory, its tracker does not panic, and it may carry out one superstep
    more than it has nodes without being cancelled, then it converges within so many supersteps.
    Then the distance of a node is the least length of all walks from the source to it. -/
theorem shortestPaths_least [Memory.Allocator] {W D κ T : Type} [Weight W] [Distance D W]
    [Message D] [LinearOrder κ]
    [OrderTop κ] (reading : Distance.Reading D W κ) {r : Run W D D} {source : NodeId}
    (hcomputation : r.computation = ShortestPaths.computation source)
    (hcombiner : r.config.combiner = .min ∨ r.config.combiner = .none)
    (hsource : source.index ∈ r.initialNodes) (hclosed : r.graph.Closed)
    (hfinite : ShortestPaths.FiniteWeights r.graph) {tracker : Tracker T}
    (schedule : Schedule (r.job tracker)) (state : T) (flag : TerminationFlag) :
    (∀ k d, r.after schedule state flag (k + 1) = some d → ∀ v, r.graph.IsNode v →
      ∃ m y, d.store.values.get? v.index = some m ∧ reading.read m = some y ∧
        IsLeast (ShortestPaths.lengths reading r.graph source k v) y) ∧
    ((∀ u, r.graph.IsNode u → ∀ e ∈ r.graph.relationships u, ∀ x, x ≤ reading.along e.2 x) →
      (∀ report state, (tracker.take report state).2 = none) → r.Fits →
      r.nodeCount + 1 ≤ r.config.maxIterations →
      (∀ j ≤ r.nodeCount, flag.isCancelled j = false) →
      ∃ result, (Run.under schedule state flag).ending = .finished result ∧
        result.termination = .converged ∧ result.ranIterations ≤ r.nodeCount + 1 ∧
        ∀ v, r.graph.IsNode v →
          ∃ m y, result.values.get? v.index = some m ∧ reading.read m = some y ∧
            IsLeast {y | ∃ k, y ∈ ShortestPaths.lengths reading r.graph source k v} y) := by
  have h : r.Relaxes reading.read reading.along (ShortestPaths.start reading source) (· = source) :=
    ShortestPaths.relaxes hcomputation hcombiner hsource hclosed hfinite
  have hnode : r.graph.IsNode source := r.initialNodes_lt hsource
  constructor
  · intro k d hafter v hv
    obtain ⟨m, y, hm, hy, hleast⟩ := h.after hafter hv
    exact ⟨m, y, hm, hy, ShortestPaths.isLeast_lengths hclosed hfinite hnode hleast⟩
  · intro hup htracker hfits hlimit hflag
    obtain ⟨result, hresult, hconverged, hran, hvalues⟩ :=
      h.converges hup htracker hfits hlimit hflag
    refine ⟨result, hresult, hconverged, hran, fun v hv => ?_⟩
    obtain ⟨m, y, hm, hy, hleast⟩ := hvalues v hv
    exact ⟨m, y, hm, hy, ShortestPaths.isLeast_exists_lengths hclosed hfinite hnode hleast⟩

/-! ## A detour that is shorter -/

instance : Weight Int where
  unit := 1
  isFinite _ := true
  parts w := [w.repr.toList]
  read? text := (String.ofList text).toInt?

instance : Distance (Option Int) Int where
  zero := some 0
  infinity := none
  add d w := d.map (· + w)
  less
    | some a, some b => a < b
    | some _, none => true
    | none, _ => false
  smaller
    | some a, some b => some (min a b)
    | some a, none => some a
    | none, b => b

instance : Message (Option Int) where
  supports _ := true
  reduce _ := Distance.smaller Int

/-- An integral distance as it is read. No distance is infinity. -/
def readIntegral (d : Option Int) : Option (WithTop Int) := some d

theorem readsMin_integral : ReadsMin readIntegral (Distance.smaller Int) := by
  intro a b x y ha hb
  obtain rfl := Option.some.inj ha
  obtain rfl := Option.some.inj hb
  cases a with
  | none => exact congrArg some (top_inf_eq _).symm
  | some a =>
    cases b with
    | none => exact congrArg some (inf_top_eq _).symm
    | some b => exact congrArg some (WithTop.coe_min a b)

/-- Integral distances are read as what they are. -/
def Distance.Reading.integral : Distance.Reading (Option Int) Int (WithTop Int) where
  read := readIntegral
  along w x := x + w
  zero := 0
  read_zero := rfl
  read_infinity := rfl
  read_add d w _ _ h := by
    obtain rfl := Option.some.inj h
    cases d with
    | none => rfl
    | some a => rfl
  monotone w _ _ _ h := add_le_add_left h (w : WithTop Int)
  along_top w _ := WithTop.top_add (w : WithTop Int)
  less_iff a b x y ha hb := by
    obtain rfl := Option.some.inj ha
    obtain rfl := Option.some.inj hb
    cases a with
    | none => exact iff_of_false Bool.false_ne_true not_top_lt
    | some a =>
      cases b with
      | none => exact iff_of_true rfl (WithTop.coe_lt_top a)
      | some b => exact decide_eq_true_iff.trans WithTop.coe_lt_coe.symm
  smaller := readsMin_integral
  reduce := readsMin_integral

/-- From node 0 it is farther to node 1 than to node 2 and from there to node 1. -/
def detour : Graph Int where
  nodeCount := 3
  relationshipCount := 3
  degree node := if node.val = 0 then 2 else if node.val = 2 then 1 else 0
  relationships node :=
    if node.val = 0 then [(⟨1⟩, 4), (⟨2⟩, 1)] else if node.val = 2 then [(⟨1⟩, 2)] else []
  fault? _ := none
  isWeighted := true

/-- A run with two workers that looks for the shortest paths from node 0. -/
def detourRun : Run Int (Option Int) (Option Int) :=
  ⟨detour, { Config.default 2 with combiner := .min }, ShortestPaths.computation ⟨0⟩, rfl⟩

theorem closed_detour : detour.Closed := ⟨by decide +kernel, by decide +kernel⟩

theorem weights_detour : ∀ u, ∀ e ∈ detour.relationships u, 0 ≤ e.2 := by
  intro u e he
  unfold detour at he
  dsimp only at he
  split at he
  · simp only [List.mem_cons, List.not_mem_nil, or_false] at he
    rcases he with rfl | rfl <;> decide
  · split at he
    · rw [List.mem_singleton.1 he]
      decide
    · cases he

/-- The search finds the detour. -/
theorem shortestPaths_least_detour :
    ∃ result, (Run.under (.inOrder (detourRun.job Tracker.silent)) () .never).ending =
        .finished result ∧
      result.termination = .converged ∧ result.ranIterations ≤ 4 ∧
      ∃ m, result.values.get? 1 = some m ∧
        IsLeast {y | ∃ k, y ∈ ShortestPaths.lengths .integral detour ⟨0⟩ k ⟨1⟩} m := by
  obtain ⟨d, workers, hprepare⟩ : ∃ d workers,
      detourRun.prepare Tracker.silent () = .ok (d, workers) := ⟨_, _, rfl⟩
  have hsource : (⟨0⟩ : NodeId).index ∈ detourRun.initialNodes := Finset.mem_range.2 (by decide)
  obtain ⟨-, hconverges⟩ := shortestPaths_least .integral (r := detourRun) rfl (.inl rfl) hsource
    closed_detour (fun _ _ _ _ => rfl) (.inOrder (detourRun.job Tracker.silent)) () .never
  have hup : ∀ u, detour.IsNode u → ∀ e ∈ detour.relationships u, ∀ x : WithTop Int,
      x ≤ x + e.2 := fun u _ e he x =>
    le_add_of_nonneg_right (WithTop.coe_nonneg.2 (weights_detour u e he))
  obtain ⟨result, hresult, hconverged, hran, hvalues⟩ := hconverges hup (fun _ _ => rfl)
    (detourRun.fits_of_prepare hprepare) (by decide) fun _ _ => rfl
  obtain ⟨m, y, hm, hread, hleast⟩ := hvalues ⟨1⟩ (by decide)
  obtain rfl := Option.some.inj hread
  exact ⟨result, hresult, hconverged, hran, m, hm, hleast⟩

end Superstep
