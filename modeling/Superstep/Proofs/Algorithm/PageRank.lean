import Mathlib.Tactic
import Superstep.Algorithm.PageRank
import Superstep.Proofs.Graph.Degrees
import Superstep.Proofs.Run.Failures
import Superstep.Proofs.Run.Truncation

/-!
# The ranks that are computed

In exact arithmetic the computation of page ranks follows a recurrence. The program pushes: a node
divides its rank among its relationships and sends the shares. The recurrence (`PageRank.rank`)
pulls: the next rank of a node is made of the shares of all relationships that lead to it.

`Ranked` is what holds before a superstep: all nodes are active, they hold the ranks of the
superstep before, and what waits for a node sums up to the shares that it is due.

Results:
* `sum_rank_succ`, `sum_rank`: the total of the ranks.
* `Ranked.after`: a superstep follows the recurrence.
* `pageRank_recurrence`: the ranks after every superstep, and the end of a run.
-/

namespace Superstep

/-! ## Exact arithmetic -/

instance : RankArithmetic ℚ where
  ofNat n := n
  add a b := a + b
  sub a b := a - b
  mul a b := a * b
  div a b := a / b

instance : Message ℚ where
  supports _ := true
  reduce
    | .sum, a, b => a + b
    | .min, a, b => min a b
    | .max, a, b => max a b
    | .first, a, _ => a
    | .none, a, _ => a

theorem Reduction.sum_collect {r : Reduction ℚ} (hr : r = .keep ∨ r = .builtin .sum)
    (ms : List ℚ) : (r.collect ms).sum = ms.sum := by
  rcases hr with rfl | rfl
  · rw [collect_of_not_combining rfl]
  · cases ms with
    | nil => rfl
    | cons m rest =>
      rw [collect_cons_of_combining rfl, List.sum_singleton, List.sum_eq_foldl, List.foldl_cons,
        zero_add]
      rfl

namespace PageRank

theorem update_eq (damping : ℚ) (nodeCount : Nat) (ranks : List ℚ) :
    update damping nodeCount ranks = (1 - damping) / nodeCount + damping * ranks.sum := by
  unfold update total
  rw [List.sum_eq_foldl]
  show (((1 : Nat) : ℚ) - damping) / nodeCount + damping * ranks.foldl (· + ·) ((0 : Nat) : ℚ) = _
  rw [Nat.cast_one, Nat.cast_zero]

/-! ## The recurrence -/

section

variable {W : Type} (g : Graph W) (damping : ℚ)

/-- The sum, over every relationship that leads to `v`, of what its source has to share. -/
def received (share : NodeId → ℚ) (v : NodeId) : ℚ :=
  ∑ u ∈ g.nodes.toFinset, (g.neighbors u).count v * share u

/-- The rank of a node after a superstep: at first all nodes have the same, then a node has a base
    share and the damped sum of what its predecessors have for each of their relationships. -/
def rank : Nat → NodeId → ℚ
  | 0, _ => 1 / g.nodeCount.toNat
  | t + 1, v => (1 - damping) / g.nodeCount.toNat +
      damping * received g (fun u => rank t u / g.degree u) v

variable {g} {damping} {t : Nat}

/-- The total rank is made of the base shares and of the damped ranks of the nodes that have
    somebody to pass them on to. -/
theorem sum_rank_succ (hclosed : g.Closed) (hcounted : g.Counted) (hnodes : g.nodeCount.toNat ≠ 0) :
    ∑ v ∈ g.nodes.toFinset, rank g damping (t + 1) v =
      (1 - damping) + damping *
        ∑ u ∈ g.nodes.toFinset with g.relationships u ≠ [], rank g damping t u := by
  have hbase : ∑ _v ∈ g.nodes.toFinset, (1 - damping) / (g.nodeCount.toNat : ℚ) = 1 - damping := by
    rw [Finset.sum_const, g.card_nodes, nsmul_eq_mul]
    exact mul_div_cancel₀ _ (Nat.cast_ne_zero.2 hnodes)
  -- what a node shares is its rank, unless it has no relationships
  have hshared : ∀ u ∈ g.nodes.toFinset,
      ((g.relationships u).length : ℚ) * (rank g damping t u / g.degree u) =
        if g.relationships u ≠ [] then rank g damping t u else 0 := by
    intro u hu
    rw [hcounted u (Graph.mem_toFinset_nodes.1 hu)]
    split_ifs with hne
    · have hlength : ((g.relationships u).length : ℚ) ≠ 0 := by simpa using hne
      exact mul_div_cancel₀ _ hlength
    · rw [not_not] at hne
      simp [hne]
  calc ∑ v ∈ g.nodes.toFinset, rank g damping (t + 1) v
      = ∑ _v ∈ g.nodes.toFinset, (1 - damping) / (g.nodeCount.toNat : ℚ) +
          damping * ∑ v ∈ g.nodes.toFinset,
            received g (fun u => rank g damping t u / g.degree u) v := by
        rw [Finset.mul_sum, ← Finset.sum_add_distrib]
        rfl
    _ = (1 - damping) + damping * ∑ u ∈ g.nodes.toFinset,
          ((g.relationships u).length : ℚ) * (rank g damping t u / g.degree u) := by
        rw [hbase, ← hclosed.sum_by_target]
        rfl
    _ = _ := by rw [Finset.sum_congr rfl hshared, Finset.sum_filter]

/-- If every node has somebody to pass its rank on to, no rank is lost. -/
theorem sum_rank (hclosed : g.Closed) (hcounted : g.Counted) (hnodes : g.nodeCount.toNat ≠ 0)
    (hout : ∀ u, g.IsNode u → g.relationships u ≠ []) (t : Nat) :
    ∑ v ∈ g.nodes.toFinset, rank g damping t v = 1 := by
  induction t with
  | zero =>
    show ∑ _v ∈ g.nodes.toFinset, 1 / (g.nodeCount.toNat : ℚ) = 1
    rw [Finset.sum_const, g.card_nodes, nsmul_eq_mul]
    exact mul_div_cancel₀ _ (Nat.cast_ne_zero.2 hnodes)
  | succ t ih =>
    have hall : g.nodes.toFinset.filter (fun u => g.relationships u ≠ []) = g.nodes.toFinset := by
      apply Finset.filter_true_of_mem
      intro u hu
      exact hout u (Graph.mem_toFinset_nodes.1 hu)
    rw [sum_rank_succ hclosed hcounted hnodes, hall, ih]
    ring

end

/-! ## One superstep -/

theorem arrivals_toNeighbors {M : Type} (targets : List NodeId) (m : M) (v : NodeId) :
    arrivals (targets.map fun target => (target, m)) v.index =
      List.replicate (targets.count v) m := by
  induction targets with
  | nil => rfl
  | cons target targets ih =>
    rw [List.map_cons, ← List.singleton_append, arrivals_append, arrivals_singleton, ih,
      List.count_cons]
    by_cases h : target = v
    · simp [h, List.replicate_succ]
    · simp [h, NodeId.index_inj]

section

variable {W : Type} {p : Program W ℚ ℚ} {damping : ℚ} {k : Nat} {f : Frame ℚ ℚ}

/-- What holds before superstep `k`. -/
structure Ranked (p : Program W ℚ ℚ) (damping : ℚ) (k : Nat) (f : Frame ℚ ℚ) : Prop where
  active : f.active = Finset.range p.nodeCount
  value : ∀ v, p.graph.IsNode v → f.value v.index = rank p.graph damping (k - 1) v
  inbox : ∀ v, p.graph.IsNode v → ∀ t, k = t + 1 → (f.inbox v.index).sum =
    received p.graph (fun u => rank p.graph damping t u / p.graph.degree u) v

namespace Ranked

variable (hp : p.computation = computation damping) (h : Ranked p damping k f)
include hp h

/-- A node takes its next rank, and sends a share of it along each of its relationships if it has
    any. -/
theorem outcome_eq {u : NodeId} (hu : p.graph.IsNode u) :
    p.outcome f k u.index = ⟨rank p.graph damping k u,
      if p.graph.degree u > 0 then
        [.toNeighbors (rank p.graph damping k u / p.graph.degree u)] else [], false, none⟩ := by
  have hvalue := h.value u hu
  unfold Program.outcome
  rw [hp, NodeId.ofIndex_index]
  cases k with
  | zero =>
    rw [hvalue]
    rfl
  | succ t =>
    have hupdate : update damping p.graph.nodeCount.toNat (f.inbox u.index) =
        rank p.graph damping (t + 1) u := by
      rw [update_eq, h.inbox u hu t rfl]
      rfl
    show (⟨update damping p.graph.nodeCount.toNat (f.inbox u.index), _, false, none⟩ :
      Outcome ℚ ℚ) = _
    rw [← hupdate]
    rfl

theorem letters_eq {u : NodeId} (hu : p.graph.IsNode u) :
    p.letters f k u.index = if p.graph.degree u > 0 then
      (p.graph.neighbors u).map fun v => (v, rank p.graph damping k u / p.graph.degree u)
      else [] := by
  unfold Program.letters
  rw [h.outcome_eq hp hu, NodeId.ofIndex_index]
  dsimp only
  split_ifs
  · exact List.flatMap_singleton _ _
  · rfl

theorem sum_arrivals_letters {u : NodeId} (hu : p.graph.IsNode u) (v : NodeId) :
    (arrivals (p.letters f k u.index) v.index).sum =
      (p.graph.neighbors u).count v * (rank p.graph damping k u / p.graph.degree u) := by
  rw [h.letters_eq hp hu]
  split_ifs with hpos
  · rw [arrivals_toNeighbors, List.sum_replicate, nsmul_eq_mul]
  · -- nothing is sent, and the quotient is by zero
    obtain hzero : p.graph.degree u = 0 := by omega
    simp [hzero]

/-- What all nodes together give to a node. -/
theorem sum_arrivals (v : NodeId) : (arrivals (p.traffic f k) v.index).sum =
    received p.graph (fun u => rank p.graph damping k u / p.graph.degree u) v := by
  have hnodes : p.nodes f = List.range p.graph.nodeCount.toNat := by
    unfold Program.nodes
    rw [List.filter_eq_self.2]
    · rfl
    · intro i hi
      rw [h.active]
      simpa using hi
  have hsum : ∀ is : List Nat, (∀ i ∈ is, i < p.graph.nodeCount.toNat) →
      (arrivals (is.flatMap (p.letters f k)) v.index).sum = (is.map fun i =>
        ((p.graph.neighbors (.ofIndex i)).count v : ℚ) *
          (rank p.graph damping k (.ofIndex i) / p.graph.degree (.ofIndex i))).sum := by
    intro is his
    induction is with
    | nil => rfl
    | cons i is ih =>
      obtain ⟨hi, hrest⟩ := List.forall_mem_cons.1 his
      obtain ⟨u, hu, rfl⟩ := p.graph.exists_node hi
      rw [List.flatMap_cons, arrivals_append, List.sum_append, h.sum_arrivals_letters hp hu,
        ih hrest, List.map_cons, List.sum_cons, NodeId.ofIndex_index]
  unfold Program.traffic received
  rw [hnodes, hsum _ fun i hi => List.mem_range.1 hi, Graph.sum_nodes]

/-- A superstep follows the recurrence. -/
theorem after (hr : p.reduction = .keep ∨ p.reduction = .builtin .sum)
    {arrived : List (NodeId × ℚ)} (harrived : arrived.Perm (p.traffic f k)) :
    Ranked p damping (k + 1) (p.after f k arrived) where
  active := by
    ext i
    rw [Program.mem_active_after, h.active, Finset.mem_range]
    constructor
    · rintro (⟨hi, -⟩ | ⟨hi, -⟩)
      · exact hi
      · exact hi
    · intro hi
      obtain ⟨u, hu, rfl⟩ := p.graph.exists_node hi
      exact .inl ⟨hi, by rw [h.outcome_eq hp hu]⟩
  value v hv := by
    have hactive : v.index ∈ f.active := by
      rw [h.active]
      exact Finset.mem_range.2 hv
    show (if v.index ∈ f.active then _ else _) = rank p.graph damping k v
    rw [if_pos hactive, h.outcome_eq hp hv]
  inbox v hv t ht := by
    obtain rfl : k = t := Nat.succ.inj ht
    show (p.reduction.collect _).sum = _
    rw [Reduction.sum_collect hr, (arrivals_perm harrived v.index).sum_eq, h.sum_arrivals hp]

theorem flawless (hclosed : p.graph.Closed) : p.Flawless f k := by
  rw [Program.flawless_iff]
  intro i hi e
  rw [h.active, Finset.mem_range] at hi
  obtain ⟨u, hu, rfl⟩ := p.graph.exists_node hi
  apply Program.not_fails
  · rw [NodeId.ofIndex_index]
    exact hclosed.readable u (Graph.mem_nodes_iff.2 hu)
  · rw [h.outcome_eq hp hu]
  · intro l hl
    rw [h.letters_eq hp hu] at hl
    split_ifs at hl
    · obtain ⟨v, hv, rfl⟩ := List.mem_map.1 hl
      obtain ⟨r, hr, rfl⟩ := List.mem_map.1 hv
      exact hclosed.isNode hu hr
    · cases hl

end Ranked

end

/-! ## Runs -/

section

variable {W T : Type} {r : Run W ℚ ℚ} {damping : ℚ} {flag : TerminationFlag} {k : Nat}
  {f : Frame ℚ ℚ} {stats : List SuperstepStats}

theorem ranked_start (hp : r.computation = computation damping)
    (hall : ∀ v, r.graph.IsNode v → v.index ∈ r.initialNodes) :
    Ranked r.program damping 0 r.initialFrame where
  active := by
    ext i
    rw [Finset.mem_range]
    constructor
    · exact fun hi => r.initialNodes_lt hi
    · intro hi
      obtain ⟨u, hu, rfl⟩ := r.graph.exists_node hi
      exact hall u hu
  value v _ := by
    show r.computation.init r.graph (.ofIndex v.index) = _
    rw [hp]
    show ((1 : Nat) : ℚ) / _ = 1 / _
    rw [Nat.cast_one]
    rfl
  inbox v _ t ht := by cases ht

/-- Every frame of the course of the run follows the recurrence. -/
theorem ranked_course (hp : r.computation = computation damping)
    (hr : r.reduction = .keep ∨ r.reduction = .builtin .sum)
    (hall : ∀ v, r.graph.IsNode v → v.index ∈ r.initialNodes)
    (hcourse : r.Course flag k f stats) : Ranked r.program damping k f := by
  induction hcourse with
  | start => exact ranked_start hp hall
  | superstep _ _ _ hperm _ ih => exact ih.after hp hr hperm

end

end PageRank

/-- A run of the computation of page ranks in exact arithmetic, on a graph with nodes whose
    relationships can be read and lead to nodes, with all nodes active at first and the messages
    kept or summed up, under any schedule. After superstep `k` the value of a node is its rank by
    the recurrence. If the run fits in memory, its tracker does not panic and it is not cancelled,
    it ends with the superstep that is the last one it may carry out. If the degrees of the nodes
    count their relationships, the total rank is that of the base shares and of the damped ranks of
    the nodes with relationships; and it is one if all nodes have some. -/
theorem pageRank_recurrence [Memory.Allocator] {W T : Type} {damping : ℚ} {r : Run W ℚ ℚ}
    (hcomputation : r.computation = PageRank.computation damping)
    (hcombiner : r.config.combiner = .sum ∨ r.config.combiner = .none)
    (hall : ∀ v, r.graph.IsNode v → v.index ∈ r.initialNodes) (hclosed : r.graph.Closed)
    (hnodes : r.nodeCount ≠ 0) {tracker : Tracker T} (schedule : Schedule (r.job tracker))
    (state : T) (flag : TerminationFlag) :
    (∀ k d, r.after schedule state flag (k + 1) = some d → ∀ v, r.graph.IsNode v →
      d.store.values.get? v.index = some (PageRank.rank r.graph damping k v)) ∧
    (tracker.Quiet → r.Fits → (∀ j < r.config.maxIterations, flag.isCancelled j = false) →
      ∃ result, (Run.under schedule state flag).ending = .finished result ∧
        result.termination = .maxIterationsReached ∧
        result.ranIterations = r.config.maxIterations ∧
        ∀ v, r.graph.IsNode v → result.values.get? v.index =
          some (PageRank.rank r.graph damping (r.config.maxIterations - 1) v)) ∧
    (r.graph.Counted → ∀ k,
      ∑ v ∈ r.graph.nodes.toFinset, PageRank.rank r.graph damping (k + 1) v =
        (1 - damping) + damping * ∑ u ∈ r.graph.nodes.toFinset with r.graph.relationships u ≠ [],
          PageRank.rank r.graph damping k u ∧
      ((∀ u, r.graph.IsNode u → r.graph.relationships u ≠ []) →
        ∑ v ∈ r.graph.nodes.toFinset, PageRank.rank r.graph damping k v = 1)) := by
  have hreduction : r.reduction = .keep ∨ r.reduction = .builtin .sum := by
    unfold Run.reduction
    rw [hcomputation]
    rcases hcombiner with hsum | hnone
    · rw [hsum]
      exact .inr rfl
    · rw [hnone]
      exact .inl rfl
  have hranked : ∀ {k f stats}, r.Course flag k f stats → PageRank.Ranked r.program damping k f :=
    PageRank.ranked_course hcomputation hreduction hall
  refine ⟨?_, ?_, fun hcounted k => ⟨?_, fun hout => ?_⟩⟩
  · intro k d hafter v hv
    obtain ⟨f, hat⟩ := Run.exists_course hafter
    rw [hat.store.value_eq v.index hv, (hranked hat.course).value v hv]
    rfl
  · intro htracker hfits hflag
    obtain ⟨result, hresult⟩ : ∃ result,
        (Run.under schedule state flag).ending = .finished result := by
      refine Run.finishes_of_flawless htracker hfits fun k f stats hcourse _ => ?_
      exact (hranked hcourse).flawless hcomputation hclosed
    obtain ⟨f, hcourse, hstop, hvalues⟩ := Run.finished_spec hresult
    have hactive : f.active.card ≠ 0 := by
      rw [(hranked hcourse).active, Finset.card_range]
      exact hnodes
    have hran : r.config.maxIterations ≤ result.ranIterations := by
      by_contra hlt
      have hnone : r.stop? flag f.active.card result.ranIterations = none :=
        Run.stop?_eq_none_iff.2 ⟨hactive, Nat.not_le.1 hlt, hflag _ (Nat.not_le.1 hlt)⟩
      rw [hnone] at hstop
      cases hstop
    have heq : result.ranIterations = r.config.maxIterations :=
      le_antisymm hcourse.le_maxIterations hran
    refine ⟨result, hresult, ?_, heq, fun v hv => ?_⟩
    · rw [Run.stop?_eq_maxIterationsReached_iff.2 ⟨hactive, hran⟩] at hstop
      exact (Option.some.inj hstop).symm
    · rw [hvalues v.index hv, (hranked hcourse).value v hv, heq]
      rfl
  · exact PageRank.sum_rank_succ hclosed hcounted hnodes
  · exact PageRank.sum_rank hclosed hcounted hnodes hout k

/-- Two relationships lead from the first node to the second one and one to the third one, which has
    none; the second node leads back to the first one. -/
def parallelArcs : Graph Unit where
  nodeCount := 3
  relationshipCount := 4
  degree node := if node.val = 0 then 3 else if node.val = 1 then 1 else 0
  relationships node :=
    if node.val = 0 then [(⟨1⟩, ()), (⟨1⟩, ()), (⟨2⟩, ())]
    else if node.val = 1 then [(⟨0⟩, ())] else []
  fault? _ := none
  isWeighted := false

/-- A run that computes their ranks in two supersteps. -/
def parallelRun : Run Unit ℚ ℚ where
  graph := parallelArcs
  config := { Config.default 2 with combiner := .sum, maxIterations := 2 }
  computation := PageRank.computation (1 / 2)
  accepted := rfl

theorem pageRank_recurrence_parallelArcs :
    ∃ result, (Run.under (.inOrder (parallelRun.job Tracker.silent)) () .never).ending =
        .finished result ∧
      result.termination = .maxIterationsReached ∧ result.ranIterations = 2 ∧
      result.values.get? 1 = some (5 / 18) ∧
      ∑ v ∈ parallelArcs.nodes.toFinset, PageRank.rank parallelArcs (1 / 2) 1 v =
        (1 - 1 / 2) + 1 / 2 * ∑ u ∈ parallelArcs.nodes.toFinset with
          parallelArcs.relationships u ≠ [], PageRank.rank parallelArcs (1 / 2) 0 u := by
  obtain ⟨d, workers, hprepare⟩ : ∃ d workers,
      parallelRun.prepare Tracker.silent () = .ok (d, workers) := ⟨_, _, rfl⟩
  have hclosed : parallelArcs.Closed := ⟨by decide +kernel, by decide +kernel⟩
  have hcounted : parallelArcs.Counted := by
    have hall : ∀ v ∈ parallelArcs.nodes, parallelArcs.degree v =
        (parallelArcs.relationships v).length := by
      decide +kernel
    exact fun v hv => hall v (Graph.mem_nodes_iff.2 hv)
  obtain ⟨-, hends, htotal⟩ := pageRank_recurrence (r := parallelRun) rfl (.inl rfl)
    (fun v hv => Finset.mem_range.2 hv) hclosed (by decide)
    (.inOrder (parallelRun.job Tracker.silent)) () .never
  obtain ⟨result, hresult, htermination, hran, hvalues⟩ := hends (fun _ _ => rfl)
    (parallelRun.fits_of_prepare hprepare) fun _ _ => rfl
  refine ⟨result, hresult, htermination, hran, ?_, (htotal hcounted 0).1⟩
  have hrank : PageRank.rank parallelArcs (1 / 2) 1 ⟨1⟩ = 5 / 18 := by decide +kernel
  rw [← hrank]
  exact hvalues ⟨1⟩ (by decide)

end Superstep
