import Mathlib.Data.Finset.Card
import Mathlib.Order.Bounds.Basic
import Superstep.Proofs.Graph.Made

/-!
# Walks

A walk leads from a node along relationships to another one; it is given by the steps that it takes,
each with its target and its weight. If every relationship changes a value that is carried along it,
a walk carries the value of its start to its end (`carry`), and `Graph.Carried` are the values that
walks of bounded length carry to a node.

Results:
* `carried_succ`: what walks of one more step carry is carried by the last step.
* `Walk.exists_path`: if no relationship makes a value smaller, a walk that comes back to a node can
  be cut short, so that it carries no more and has fewer steps than there are nodes.
* `OffsetTable.Made.closed`: the relationships of the graphs of this library can be read and lead
  to nodes.
-/

namespace Superstep

/-- A graph whose relationships can all be read and lead to nodes. -/
structure Graph.Closed {W : Type} (g : Graph W) : Prop where
  readable : ∀ node ∈ g.nodes, g.fault? node = none
  targets : ∀ node ∈ g.nodes, ∀ r ∈ g.relationships node, r.1.val < g.nodeCount

theorem OffsetTable.Made.closed [Memory.Allocator] {W : Type} [Weight W] {t : OffsetTable W}
    (h : t.Made) :
    t.toGraph.Closed := by
  obtain ⟨n, es, hlists⟩ := h.exists_lists
  constructor
  · intro node _
    exact hlists.fault?_eq_none node
  · intro node _ r hr
    have hr : r ∈ t.relationships node := hr
    rw [hlists.relationships_eq_filter, List.mem_map] at hr
    obtain ⟨e, he, rfl⟩ := hr
    rw [hlists.nodeCount_toGraph]
    exact (hlists.nodes e (List.mem_filter.1 he).1).2

namespace Graph

variable {W κ : Type} {g : Graph W} {s u v : NodeId} {steps : List (NodeId × W)}

/-- A node of a graph. -/
def IsNode (g : Graph W) (v : NodeId) : Prop := v.index < g.nodeCount.toNat

instance (g : Graph W) (v : NodeId) : Decidable (g.IsNode v) :=
  inferInstanceAs (Decidable (v.index < g.nodeCount.toNat))

theorem exists_node (g : Graph W) {i : Nat} (hi : i < g.nodeCount.toNat) :
    ∃ u, g.IsNode u ∧ u.index = i := by
  have hindex : (NodeId.ofIndex i).index = i :=
    NodeId.index_ofIndex (Nat.lt_trans hi (toNat_lt_wordLimit _))
  exact ⟨.ofIndex i, by rwa [IsNode, hindex], hindex⟩

theorem Closed.isNode (h : g.Closed) (hu : g.IsNode u) {r : NodeId × W}
    (hr : r ∈ g.relationships u) : g.IsNode r.1 :=
  UInt64.lt_iff_toNat_lt.1 (h.targets u (mem_nodes_iff.2 hu) r hr)

/-! ## Walks and what they carry -/

/-- A walk from `s` along relationships of the graph. -/
inductive Walk (g : Graph W) (s : NodeId) : List (NodeId × W) → NodeId → Prop
  | stay : Walk g s [] s
  | step {steps : List (NodeId × W)} {u : NodeId} {r : NodeId × W} :
    Walk g s steps u → r ∈ g.relationships u → Walk g s (steps ++ [r]) r.1

theorem Walk.steps_spec (h : g.Closed) (hs : g.IsNode s) (hwalk : g.Walk s steps v) :
    g.IsNode v ∧ ∀ r ∈ steps, ∃ u, g.IsNode u ∧ r ∈ g.relationships u := by
  induction hwalk with
  | stay => exact ⟨hs, fun r hr => by cases hr⟩
  | @step steps u r hwalk hr ih =>
    obtain ⟨hu, hsteps⟩ := ih
    refine ⟨h.isNode hu hr, ?_⟩
    rw [List.forall_mem_append, List.forall_mem_singleton]
    exact ⟨hsteps, u, hu, hr⟩

/-- What becomes of a value that is carried along some steps. -/
def carry (along : W → κ → κ) (x : κ) (steps : List (NodeId × W)) : κ :=
  steps.foldl (fun y r => along r.2 y) x

theorem carry_append (along : W → κ → κ) (x : κ) (steps steps' : List (NodeId × W)) :
    carry along x (steps ++ steps') = carry along (carry along x steps) steps' :=
  List.foldl_append

/-- The values that walks of at most `k` steps carry to `v`, each from the start value of the node
    where it starts. -/
def Carried (g : Graph W) (along : W → κ → κ) (start : NodeId → κ) (k : Nat) (v : NodeId) : Set κ :=
  {y | ∃ s steps, g.IsNode s ∧ g.Walk s steps v ∧ steps.length ≤ k ∧
    carry along (start s) steps = y}

section Carried

variable {along : W → κ → κ} {start : NodeId → κ} {k k' : Nat}

theorem start_mem_carried (hv : g.IsNode v) (k : Nat) : start v ∈ g.Carried along start k v :=
  ⟨v, [], hv, .stay, Nat.zero_le k, rfl⟩

theorem Closed.isNode_of_carried (h : g.Closed) {y : κ} (hy : y ∈ g.Carried along start k v) :
    g.IsNode v := by
  obtain ⟨s, steps, hs, hwalk, -, -⟩ := hy
  exact (hwalk.steps_spec h hs).1

theorem carried_mono (h : k ≤ k') : g.Carried along start k v ⊆ g.Carried along start k' v := by
  rintro y ⟨s, steps, hs, hwalk, hlength, hy⟩
  exact ⟨s, steps, hs, hwalk, hlength.trans h, hy⟩

/-- A walk of at most one more step stays where it starts, or its last step carries on what a walk
    has carried there. -/
theorem carried_succ {y : κ} : y ∈ g.Carried along start (k + 1) v ↔
    (g.IsNode v ∧ y = start v) ∨
      ∃ u, ∃ r ∈ g.relationships u, ∃ x ∈ g.Carried along start k u, r.1 = v ∧ y = along r.2 x := by
  constructor
  · rintro ⟨s, steps, hs, hwalk, hlength, rfl⟩
    cases hwalk with
    | stay => exact .inl ⟨hs, rfl⟩
    | @step steps u r hwalk hr =>
      rw [List.length_append, List.length_singleton] at hlength
      refine .inr ⟨u, r, hr, _, ⟨s, steps, hs, hwalk, by omega, rfl⟩, rfl, ?_⟩
      exact carry_append along (start s) steps [r]
  · rintro (⟨hv, rfl⟩ | ⟨u, r, hr, x, ⟨s, steps, hs, hwalk, hlength, rfl⟩, rfl, rfl⟩)
    · exact start_mem_carried hv (k + 1)
    · refine ⟨s, steps ++ [r], hs, .step hwalk hr, ?_, carry_append along (start s) steps [r]⟩
      rw [List.length_append, List.length_singleton]
      omega

theorem carried_zero : g.Carried along start 0 v = {y | g.IsNode v ∧ y = start v} := by
  ext y
  constructor
  · rintro ⟨s, steps, hs, hwalk, hlength, rfl⟩
    cases hwalk with
    | stay => exact ⟨hs, rfl⟩
    | step _ _ => simp at hlength
  · rintro ⟨hv, rfl⟩
    exact start_mem_carried hv 0

end Carried

/-! ## Walks that come back -/

theorem Walk.exists_prefix (hwalk : g.Walk s steps u) (hv : v ∈ s :: steps.map Prod.fst) :
    ∃ before rest, steps = before ++ rest ∧ g.Walk s before v := by
  induction hwalk with
  | stay =>
    rw [List.mem_singleton.1 hv]
    exact ⟨[], [], rfl, .stay⟩
  | @step steps u r hwalk hr ih =>
    rw [List.map_append, ← List.cons_append, List.mem_append] at hv
    rcases hv with hv | hv
    · obtain ⟨before, rest, rfl, hbefore⟩ := ih hv
      exact ⟨before, rest ++ [r], by rw [List.append_assoc], hbefore⟩
    · rw [List.mem_singleton.1 hv]
      exact ⟨steps ++ [r], [], (List.append_nil _).symm, .step hwalk hr⟩

/-- A path of a closed graph has fewer steps than there are nodes. -/
theorem Walk.length_lt (h : g.Closed) (hs : g.IsNode s) (hwalk : g.Walk s steps v)
    (hnodup : (s :: steps.map Prod.fst).Nodup) : steps.length < g.nodeCount.toNat := by
  have hnodes : ∀ x ∈ s :: steps.map Prod.fst, g.IsNode x := by
    intro x hx
    obtain ⟨before, rest, -, hbefore⟩ := hwalk.exists_prefix hx
    exact (hbefore.steps_spec h hs).1
  have hindices : ((s :: steps.map Prod.fst).map NodeId.index).Nodup :=
    hnodup.map fun _ _ => NodeId.index_inj.1
  have hsub : ((s :: steps.map Prod.fst).map NodeId.index).toFinset ⊆
      Finset.range g.nodeCount.toNat := by
    intro i hi
    obtain ⟨x, hx, rfl⟩ := List.mem_map.1 (List.mem_toFinset.1 hi)
    exact Finset.mem_range.2 (hnodes x hx)
  have hcard := Finset.card_le_card hsub
  rw [List.toFinset_card_of_nodup hindices, Finset.card_range] at hcard
  exact Nat.lt_of_succ_le (by simpa using hcard)

section Paths

variable [Preorder κ] {along : W → κ → κ}

theorem le_carry (hup : ∀ r ∈ steps, ∀ x, x ≤ along r.2 x) (x : κ) : x ≤ carry along x steps := by
  induction steps generalizing x with
  | nil => exact le_refl x
  | cons r steps ih =>
    rw [List.forall_mem_cons] at hup
    exact (hup.1 x).trans (ih hup.2 (along r.2 x))

variable (hclosed : g.Closed)
  (hmono : ∀ u, g.IsNode u → ∀ r ∈ g.relationships u, Monotone (along r.2))
  (hup : ∀ u, g.IsNode u → ∀ r ∈ g.relationships u, ∀ x, x ≤ along r.2 x)
include hclosed hmono hup

/-- A walk can be cut short to a path, which passes no node twice and carries no more. -/
theorem Walk.exists_path (hs : g.IsNode s) (hwalk : g.Walk s steps v) (x : κ) :
    ∃ path, g.Walk s path v ∧ (s :: path.map Prod.fst).Nodup ∧
      carry along x path ≤ carry along x steps := by
  induction hwalk with
  | stay => exact ⟨[], .stay, List.nodup_singleton s, le_refl _⟩
  | @step steps u r hwalk hr ih =>
    obtain ⟨path, hpath, hnodup, hle⟩ := ih
    have hu := (hwalk.steps_spec hclosed hs).1
    have hstep : carry along x (path ++ [r]) ≤ carry along x (steps ++ [r]) := by
      rw [carry_append, carry_append]
      exact hmono u hu r hr hle
    by_cases hback : r.1 ∈ s :: path.map Prod.fst
    · -- the path has been here before: the steps since then are left out
      obtain ⟨before, rest, hsplit, hbefore⟩ := hpath.exists_prefix hback
      refine ⟨before, hbefore, ?_, ?_⟩
      · rw [hsplit, List.map_append, ← List.cons_append] at hnodup
        exact (List.nodup_append.1 hnodup).1
      · have hsteps := ((Walk.step hpath hr).steps_spec hclosed hs).2
        refine le_trans ?_ hstep
        rw [hsplit, List.append_assoc, carry_append]
        refine le_carry ?_ _
        intro r' hr' y
        obtain ⟨u', hu', hr'⟩ := hsteps r' (by
          rw [hsplit, List.append_assoc]
          exact List.mem_append_right before hr')
        exact hup u' hu' r' hr' y
    · refine ⟨path ++ [r], .step hpath hr, ?_, hstep⟩
      rw [List.map_append, ← List.cons_append]
      exact List.nodup_append.2 ⟨hnodup, List.nodup_singleton r.1, fun a ha b hb hab =>
        hback (List.mem_singleton.1 hb ▸ hab ▸ ha)⟩

/-- Walks with fewer steps than there are nodes carry as little as any. -/
theorem exists_le_of_carried {start : NodeId → κ} {k : Nat} {y : κ}
    (hy : y ∈ g.Carried along start k v) :
    ∃ y' ∈ g.Carried along start (g.nodeCount.toNat - 1) v, y' ≤ y := by
  obtain ⟨s, steps, hs, hwalk, -, rfl⟩ := hy
  obtain ⟨path, hpath, hnodup, hle⟩ := hwalk.exists_path hclosed hmono hup hs (start s)
  have hlength := hpath.length_lt hclosed hs hnodup
  exact ⟨_, ⟨s, path, hs, hpath, by omega, rfl⟩, hle⟩

end Paths

end Graph

end Superstep
