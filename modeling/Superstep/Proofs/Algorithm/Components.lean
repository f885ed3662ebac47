import Mathlib.Logic.Relation
import Mathlib.Order.Bounds.Lattice
import Superstep.Proofs.Run.Relaxation

/-!
# What the search for components finds

The search for components spreads the smallest label: labels are read as numbers, and no
relationship changes them. So after superstep `k` the label of a node is the smallest id of a node
that reaches it by at most `k` relationships, and when the run has converged it is the smallest id
of all nodes that reach it. If every relationship is there in both directions, these are the nodes
of its connected component.

Result: `components_smallest`.
-/

namespace Superstep

/-! ## Nodes that reach each other -/

namespace Graph

variable {W : Type} {g : Graph W} {u v w : NodeId}

/-- A walk of at most `k` relationships leads from `u` to `v`. -/
def Reaches (g : Graph W) (k : Nat) (u v : NodeId) : Prop :=
  ∃ steps, g.Walk u steps v ∧ steps.length ≤ k

/-- The ids of the nodes that reach `v` by at most `k` relationships. -/
def Reaching (g : Graph W) (k : Nat) (v : NodeId) : Set Nat :=
  {i | ∃ u, g.IsNode u ∧ g.Reaches k u v ∧ u.index = i}

/-- Labels that are passed on unchanged are the ids of the nodes that they come from. -/
theorem carried_index (k : Nat) (v : NodeId) :
    g.Carried (fun _ => id) NodeId.index k v = g.Reaching k v := by
  have hcarry : ∀ (x : Nat) (steps : List (NodeId × W)), carry (fun _ => id) x steps = x := by
    intro x steps
    induction steps with
    | nil => rfl
    | cons r steps ih => exact ih
  ext i
  constructor
  · rintro ⟨u, steps, hu, hwalk, hlength, rfl⟩
    exact ⟨u, hu, ⟨steps, hwalk, hlength⟩, (hcarry _ _).symm⟩
  · rintro ⟨u, hu, ⟨steps, hwalk, hlength⟩, rfl⟩
    exact ⟨u, steps, hu, hwalk, hlength, hcarry _ _⟩

/-- Two nodes are connected if one can get from one to the other along relationships, in either
    direction of each. -/
def Connected (g : Graph W) : NodeId → NodeId → Prop :=
  Relation.EqvGen fun u v => g.IsNode u ∧ v ∈ g.neighbors u

/-- Every relationship is there in both directions. -/
def BothWays (g : Graph W) : Prop := ∀ u v, g.IsNode u → v ∈ g.neighbors u → u ∈ g.neighbors v

theorem Walk.trans {steps steps' : List (NodeId × W)} (h : g.Walk u steps v)
    (h' : g.Walk v steps' w) : g.Walk u (steps ++ steps') w := by
  induction h' with
  | stay => rwa [List.append_nil]
  | step _ hr ih =>
    rw [← List.append_assoc]
    exact .step ih hr

theorem exists_walk_of_neighbor (h : v ∈ g.neighbors u) : ∃ steps, g.Walk u steps v := by
  obtain ⟨r, hr, rfl⟩ := List.mem_map.1 h
  exact ⟨[r], .step .stay hr⟩

theorem Walk.connected (hclosed : g.Closed) (hu : g.IsNode u) {steps : List (NodeId × W)}
    (h : g.Walk u steps v) : g.Connected u v := by
  induction h with
  | stay => exact .refl u
  | @step steps x r hwalk hr ih =>
    exact .trans _ _ _ ih (.rel _ _ ⟨(hwalk.steps_spec hclosed hu).1, List.mem_map_of_mem hr⟩)

/-- In a graph with every relationship in both directions, nodes that are connected reach each
    other. -/
theorem Connected.walks (hclosed : g.Closed) (hboth : g.BothWays) (h : g.Connected u v) :
    (g.IsNode u ↔ g.IsNode v) ∧
      (g.IsNode u → (∃ steps, g.Walk u steps v) ∧ ∃ steps, g.Walk v steps u) := by
  induction h with
  | rel u v hrel =>
    obtain ⟨hu, hv⟩ := hrel
    have hnode : g.IsNode v := by
      obtain ⟨r, hr, rfl⟩ := List.mem_map.1 hv
      exact hclosed.isNode hu hr
    exact ⟨iff_of_true hu hnode, fun _ =>
      ⟨exists_walk_of_neighbor hv, exists_walk_of_neighbor (hboth u v hu hv)⟩⟩
  | refl u => exact ⟨Iff.rfl, fun _ => ⟨⟨[], .stay⟩, [], .stay⟩⟩
  | symm u v _ ih =>
    exact ⟨ih.1.symm, fun hv => (ih.2 (ih.1.2 hv)).symm⟩
  | trans u v w _ _ ihuv ihvw =>
    refine ⟨ihuv.1.trans ihvw.1, fun hu => ?_⟩
    obtain ⟨⟨_, huv⟩, _, hvu⟩ := ihuv.2 hu
    obtain ⟨⟨_, hvw⟩, _, hwv⟩ := ihvw.2 (ihuv.1.1 hu)
    exact ⟨⟨_, huv.trans hvw⟩, _, hwv.trans hvu⟩

theorem exists_reaching_eq (hclosed : g.Closed) (hboth : g.BothWays) (v : NodeId) :
    {i | ∃ k, i ∈ g.Reaching k v} = {i | ∃ u, g.IsNode u ∧ g.Connected u v ∧ u.index = i} := by
  ext i
  constructor
  · rintro ⟨k, u, hu, ⟨steps, hwalk, -⟩, rfl⟩
    exact ⟨u, hu, hwalk.connected hclosed hu, rfl⟩
  · rintro ⟨u, hu, hconnected, rfl⟩
    obtain ⟨⟨steps, hwalk⟩, -⟩ := (hconnected.walks hclosed hboth).2 hu
    exact ⟨steps.length, u, hu, ⟨steps, hwalk, le_rfl⟩, rfl⟩

end Graph

/-! ## The search -/

namespace Components

variable {W : Type}

/-- A label, read as a number. -/
def readLabel (label : Unsigned 64) : Option Nat := some label.toNat

theorem readsMin_label : ReadsMin readLabel (Message.reduce .min) := by
  rintro a b x y hx hy
  obtain rfl := Option.some.inj hx
  obtain rfl := Option.some.inj hy
  show some (Unsigned.toNat (if b.toNat < a.toNat then b else a)) = _
  split
  · next hlt => rw [min_eq_right hlt.le]
  · next hge => rw [min_eq_left (not_lt.1 hge)]

theorem readable_labels (labels : List (Unsigned 64)) : Readable readLabel labels :=
  fun m _ => ⟨m.toNat, rfl⟩

theorem isLeast_smallest {labels : List (Unsigned 64)} {label : Unsigned 64}
    (h : smallest? labels = some label) : IsLeast (heard readLabel labels) label.toNat := by
  cases labels with
  | nil => cases h
  | cons m ms =>
    obtain ⟨y, hy, hleast⟩ := readsMin_label.isLeast_foldl (readable_labels ms)
      (rfl : readLabel m = some m.toNat)
    obtain rfl := Option.some.inj h
    obtain rfl := Option.some.inj hy
    rw [heard_cons (rfl : readLabel m = some m.toNat)]
    exact hleast

section Step

/-- The label with which a node turns to its neighbours, if it does. -/
def improved? (f : Frame (Unsigned 64) (Unsigned 64)) (t : Nat) (u : NodeId) :
    Option (Unsigned 64) :=
  if t = 0 then some (f.value u.index)
  else (smallest? (f.inbox u.index)).filter fun m => m.toNat < (f.value u.index).toNat

variable {p : Program W (Unsigned 64) (Unsigned 64)} (hp : p.computation = computation)
  {f : Frame (Unsigned 64) (Unsigned 64)} {t : Nat} {u : NodeId}

include hp in
theorem outcome_eq : p.outcome f t u.index =
    match improved? f t u with
    | some label => ⟨label, [.toNeighbors label], true, none⟩
    | none => ⟨f.value u.index, [], true, none⟩ := by
  rw [Program.outcome, hp]
  cases t with
  | zero => rfl
  | succ t => rfl

include hp in
theorem settles_of_improved {label : Unsigned 64} {tells : Prop} (htells : tells)
    (h : improved? f t u = some label) :
    p.Settles readLabel (fun _ => id) f t u label.toNat tells := by
  refine .of_told (fun _ => label) htells rfl (by rw [outcome_eq hp, h]) ?_ fun r _ => rfl
  rw [List.flatMap_singleton, Send.expand, Graph.neighbors, List.map_map]
  rfl

/-- Outside of its first step a node turns to its neighbours if it has heard of a smaller label, and
    else it has heard of none. -/
theorem improved?_spec (ht : t ≠ 0) :
    (∃ label, improved? f t u = some label ∧ label.toNat < (f.value u.index).toNat ∧
        IsLeast (heard readLabel (f.inbox u.index)) label.toNat) ∨
      (improved? f t u = none ∧
        ∀ y ∈ heard readLabel (f.inbox u.index), (f.value u.index).toNat ≤ y) := by
  rw [improved?, if_neg ht]
  cases hsmallest : smallest? (f.inbox u.index) with
  | none =>
    rw [smallest?_eq_none_iff.1 hsmallest]
    refine .inr ⟨rfl, ?_⟩
    simp
  | some m =>
    have hleast := isLeast_smallest hsmallest
    by_cases hlt : m.toNat < (f.value u.index).toNat
    · exact .inl ⟨m, by simp [hlt], hlt, hleast⟩
    · exact .inr ⟨by simpa using hlt, fun y hy => (not_lt.1 hlt).trans (hleast.2 hy)⟩

include hp in
/-- What a node does in a step. -/
theorem exists_settles (hmail : t = 0 → f.inbox u.index = []) :
    ∃ y, IsLeast (insert (f.value u.index).toNat (heard readLabel (f.inbox u.index))) y ∧
      p.Settles readLabel (fun _ => id) f t u y
        (y < (f.value u.index).toNat ∨ (t = 0 ∧ True)) := by
  by_cases ht : t = 0
  · refine ⟨(f.value u.index).toNat, ?_, settles_of_improved hp (.inr ⟨ht, trivial⟩) ?_⟩
    · rw [hmail ht, heard_nil]
      simp
    · rw [improved?, if_pos ht]
  · rcases improved?_spec ht with ⟨label, himproved, hlt, hleast⟩ | ⟨hnone, hge⟩
    · refine ⟨label.toNat, ?_, settles_of_improved hp (.inl hlt) himproved⟩
      have hinsert := hleast.insert (f.value u.index).toNat
      rwa [min_eq_right hlt.le] at hinsert
    · refine ⟨(f.value u.index).toNat, ⟨Set.mem_insert _ _, ?_⟩, .of_silent ?_ rfl ?_⟩
      · rw [mem_lowerBounds, Set.forall_mem_insert]
        exact ⟨le_rfl, hge⟩
      · rintro (hlt | ⟨hzero, -⟩)
        · exact absurd hlt (lt_irrefl _)
        · exact absurd hzero ht
      · rw [outcome_eq hp, hnone]

end Step

theorem relaxing {p : Program W (Unsigned 64) (Unsigned 64)} (hp : p.computation = computation)
    (hclosed : p.graph.Closed) :
    Relaxing p readLabel (fun _ => id) NodeId.index fun _ => True where
  closed := hclosed
  monotone _ _ _ _ := monotone_id
  init v _ := by
    have hlt : v.index < 2 ^ 64 := v.index_lt
    rw [hp]
    show some (BitVec.ofNat 64 v.index).toNat = some v.index
    rw [BitVec.toNat_ofNat, Nat.mod_eq_of_lt hlt]
  noNews _ _ h := absurd trivial h
  step f t u x _ hx _ hmail := by
    obtain rfl := Option.some.inj hx
    exact exists_settles hp hmail

/-- A run relaxes labels if all nodes are active at first and messages are kept or reduced to the
    smallest one. -/
theorem relaxes {r : Run W (Unsigned 64) (Unsigned 64)} (hcomputation : r.computation = computation)
    (hcombiner : r.config.combiner = .min ∨ r.config.combiner = .none)
    (hall : ∀ v, r.graph.IsNode v → v.index ∈ r.initialNodes) (hclosed : r.graph.Closed) :
    r.Relaxes readLabel (fun _ => id) NodeId.index fun _ => True where
  relaxing := relaxing hcomputation hclosed
  awake u hu _ := hall u hu
  reduction := Run.reduction_of_combiner (by rw [hcomputation]; rfl) hcombiner readsMin_label

end Components

/-- A run of the search for components in which all nodes are active at first, with the messages
    kept or reduced to the smallest one, under any schedule. After superstep `k` the label of a node
    is the smallest id of a node from which a walk of at most `k` relationships leads to it. If the
    run fits in memory, its tracker does not panic, and it may carry out one superstep more than it
    has nodes without being cancelled, then it converges within so many supersteps. Then the label
    of a node is the smallest id of all nodes that reach it; if every relationship is there in both
    directions, this is the smallest id of its connected component. -/
theorem components_smallest [Memory.Allocator] {W T : Type} {r : Run W (Unsigned 64) (Unsigned 64)}
    (hcomputation : r.computation = Components.computation)
    (hcombiner : r.config.combiner = .min ∨ r.config.combiner = .none)
    (hall : ∀ v, r.graph.IsNode v → v.index ∈ r.initialNodes) (hclosed : r.graph.Closed)
    {tracker : Tracker T} (schedule : Schedule (r.job tracker)) (state : T)
    (flag : TerminationFlag) :
    (∀ k d, r.after schedule state flag (k + 1) = some d → ∀ v, r.graph.IsNode v →
      ∃ label, d.store.values.get? v.index = some label ∧
        IsLeast (r.graph.Reaching k v) label.toNat) ∧
    ((∀ report state, (tracker.take report state).2 = none) → r.Fits →
      r.nodeCount + 1 ≤ r.config.maxIterations →
      (∀ j ≤ r.nodeCount, flag.isCancelled j = false) →
      ∃ result, (Run.under schedule state flag).ending = .finished result ∧
        result.termination = .converged ∧ result.ranIterations ≤ r.nodeCount + 1 ∧
        ∀ v, r.graph.IsNode v → ∃ label, result.values.get? v.index = some label ∧
          IsLeast {i | ∃ k, i ∈ r.graph.Reaching k v} label.toNat ∧
          (r.graph.BothWays →
            IsLeast {i | ∃ u, r.graph.IsNode u ∧ r.graph.Connected u v ∧ u.index = i}
              label.toNat)) := by
  have h := Components.relaxes hcomputation hcombiner hall hclosed
  constructor
  · intro k d hafter v hv
    obtain ⟨label, x, hlabel, hx, hleast⟩ := h.after hafter hv
    obtain rfl := Option.some.inj hx
    rw [Graph.carried_index] at hleast
    exact ⟨label, hlabel, hleast⟩
  · intro htracker hfits hlimit hflag
    obtain ⟨result, hresult, hconverged, hran, hvalues⟩ :=
      h.converges (fun _ _ _ _ _ => le_rfl) htracker hfits hlimit hflag
    refine ⟨result, hresult, hconverged, hran, fun v hv => ?_⟩
    obtain ⟨label, x, hlabel, hx, hleast⟩ := hvalues v hv
    obtain rfl := Option.some.inj hx
    simp only [Graph.carried_index] at hleast
    refine ⟨label, hlabel, hleast, fun hboth => ?_⟩
    rwa [← Graph.exists_reaching_eq hclosed hboth]

theorem closed_twoNodes : twoNodes.Closed := ⟨by decide +kernel, by decide +kernel⟩

theorem eq_of_isNode_twoNodes {v : NodeId} (hv : twoNodes.IsNode v) : v = ⟨0⟩ ∨ v = ⟨1⟩ := by
  have hlt : v.index < 2 := hv
  rw [← v.ofIndex_index]
  interval_cases v.index
  · exact .inl rfl
  · exact .inr rfl

theorem bothWays_twoNodes : twoNodes.BothWays := by
  intro u v hu hv
  rcases eq_of_isNode_twoNodes hu with rfl | rfl
  · obtain rfl : v = ⟨1⟩ := by simpa [Graph.neighbors, twoNodes] using hv
    decide
  · obtain rfl : v = ⟨0⟩ := by simpa [Graph.neighbors, twoNodes] using hv
    decide

/-- Two workers find that two nodes with relationships to each other are one component. -/
theorem components_smallest_twoNodes :
    ∃ result, (Run.under (.inOrder ((twoNodesRun .min 2 rfl).job Tracker.silent)) ()
        .never).ending = .finished result ∧
      result.termination = .converged ∧ result.ranIterations ≤ 3 ∧
      ∃ label, result.values.get? 1 = some label ∧
        IsLeast {i | ∃ u, twoNodes.IsNode u ∧ twoNodes.Connected u ⟨1⟩ ∧ u.index = i}
          label.toNat := by
  obtain ⟨d, workers, hprepare⟩ : ∃ d workers,
      (twoNodesRun .min 2 rfl).prepare Tracker.silent () = .ok (d, workers) := ⟨_, _, rfl⟩
  have hall : ∀ v, twoNodes.IsNode v → v.index ∈ (twoNodesRun .min 2 rfl).initialNodes :=
    fun v hv => Finset.mem_range.2 hv
  obtain ⟨-, hconverges⟩ := components_smallest rfl (.inl rfl) hall closed_twoNodes
    (.inOrder ((twoNodesRun .min 2 rfl).job Tracker.silent)) () .never
  obtain ⟨result, hresult, hconverged, hran, hvalues⟩ := hconverges (fun _ _ => rfl)
    ((twoNodesRun .min 2 rfl).fits_of_prepare hprepare) (by decide) fun _ _ => rfl
  obtain ⟨label, hlabel, -, hcomponent⟩ := hvalues ⟨1⟩ (by decide)
  exact ⟨result, hresult, hconverged, hran, label, hlabel, hcomponent bothWays_twoNodes⟩

end Superstep
