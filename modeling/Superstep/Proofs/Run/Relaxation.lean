import Superstep.Proofs.Machine.Relaxation
import Superstep.Proofs.Run.Failures
import Superstep.Proofs.Run.Stopping

/-!
# Runs that spread the least value

A run of a program that spreads the least value keeps the invariant of the program from superstep to
superstep, under every schedule. So after superstep `k` each node holds the least that walks of at
most `k` steps carry to it; and if no relationship makes a value smaller, the run converges within
one more superstep than there are nodes.

Results:
* `Relaxes.frontier`: the invariant holds in every frame of the course of the run.
* `Relaxes.after`: what the nodes hold after a superstep.
* `Relaxes.finishes`: the run does not fail.
* `Relaxes.converges`: the run converges, and what its nodes hold then.
-/

namespace Superstep.Run

variable {W M T κ : Type} [Message M] [LinearOrder κ]

/-- A run whose machine spreads the least value. The nodes that speak at first are initially active,
    and messages are kept or reduced to the least of them. -/
structure Relaxes (r : Run W M M) (read : M → Option κ) (along : W → κ → κ)
    (start : NodeId → κ) (origin : NodeId → Prop) : Prop where
  relaxing : Relaxing r.program read along start origin
  awake : ∀ u, r.graph.IsNode u → origin u → u.index ∈ r.initialNodes
  reduction : r.reduction = .keep ∨
    (r.reduction = .builtin .min ∧ ReadsMin read (Message.reduce .min))

/-- The reduction in force is the one that the configuration names. -/
theorem reduction_of_combiner {r : Run W M M} {read : M → Option κ}
    (hnone : r.computation.combiner = none)
    (hcombiner : r.config.combiner = .min ∨ r.config.combiner = .none)
    (hmin : ReadsMin read (Message.reduce .min)) : r.reduction = .keep ∨
      (r.reduction = .builtin .min ∧ ReadsMin read (Message.reduce .min)) := by
  unfold Run.reduction
  rw [hnone]
  rcases hcombiner with h | h
  · rw [h]
    exact .inr ⟨rfl, hmin⟩
  · rw [h]
    exact .inl rfl

namespace Relaxes

variable {r : Run W M M} {read : M → Option κ} {along : W → κ → κ} {start : NodeId → κ}
  {origin : NodeId → Prop} (h : r.Relaxes read along start origin)
include h

/-- The invariant holds at the start. -/
theorem frontier_start : Frontier r.program read along start origin 0 r.initialFrame where
  proper := r.proper_initialFrame
  awake _ u hu horigin := h.awake u hu horigin
  noMail _ _ := rfl
  value v hv := by
    have hinit := h.relaxing.init v hv
    refine ⟨start v, ?_, ?_⟩
    · show read (r.computation.init r.graph (.ofIndex v.index)) = some (start v)
      rw [NodeId.ofIndex_index]
      exact hinit
    · rw [Graph.carried_zero]
      exact ⟨⟨hv, rfl⟩, fun y hy => hy.2.ge⟩
  inbox v _ := ⟨fun m hm => (List.not_mem_nil hm).elim, by
    show heard read [] ⊆ _
    rw [heard_nil]
    exact Set.empty_subset _⟩
  edges u hu e he x hx := by
    by_cases horigin : origin u
    · exact .inl ⟨rfl, horigin⟩
    · have hvalue : ∀ v, r.graph.IsNode v → read (r.initialFrame.value v.index) = some (start v) :=
        fun v hv => by
          show read (r.computation.init r.graph (.ofIndex v.index)) = some (start v)
          rw [NodeId.ofIndex_index]
          exact h.relaxing.init v hv
      obtain rfl : x = start u := Option.some.inj (hx.symm.trans (hvalue u hu))
      exact .inr ⟨start e.1, .inl (hvalue e.1 (h.relaxing.closed.isNode hu he)),
        h.relaxing.noNews u hu horigin e he⟩

variable {flag : TerminationFlag} {k : Nat} {f : Frame M M} {stats : List SuperstepStats}

theorem frontier (hcourse : r.Course flag k f stats) :
    Frontier r.program read along start origin k f := by
  induction hcourse with
  | start => exact h.frontier_start
  | superstep _ _ _ hperm _ ih => exact ih.after h.relaxing hperm h.reduction

variable {tracker : Tracker T} {schedule : Schedule (r.job tracker)} {state : T}

theorem after [Memory.Allocator] {d : Driver M M T}
    (hafter : r.after schedule state flag (k + 1) = some d) {v : NodeId} (hv : r.graph.IsNode v) :
    ∃ m x, d.store.values.get? v.index = some m ∧ read m = some x ∧
      IsLeast (r.graph.Carried along start k v) x := by
  obtain ⟨f, hat⟩ := exists_course hafter
  obtain ⟨x, hx, hleast⟩ := (h.frontier hat.course).value v hv
  exact ⟨f.value v.index, x, hat.store.value_eq v.index hv, hx, hleast⟩

section Ends

variable [Memory.Allocator] (htracker : ∀ report state, (tracker.take report state).2 = none)
  (hfits : r.Fits)
include htracker hfits

theorem finishes : ∃ result, (Run.under schedule state flag).ending = .finished result := by
  refine finishes_of_flawless htracker hfits fun k f stats hcourse _ => ?_
  exact (h.frontier hcourse).flawless h.relaxing

end Ends

variable (hup : ∀ u, r.graph.IsNode u → ∀ e ∈ r.graph.relationships u, ∀ x, x ≤ along e.2 x)
include hup

/-- No node is active after one more superstep than there are nodes. -/
theorem asleep (hcourse : r.Course flag (r.nodeCount + 1) f stats) : f.active = ∅ := by
  cases hcourse with
  | superstep hcourse hgoing _ hperm _ =>
    have hf := h.frontier hcourse
    refine hf.active_after_eq_empty h.relaxing hperm hup le_rfl (Nat.pos_of_ne_zero fun hzero => ?_)
    obtain ⟨i, hi⟩ := Finset.card_pos.1 (Nat.pos_of_ne_zero (stop?_eq_none_iff.1 hgoing).1)
    have := hf.proper.active_lt i hi
    omega

/-- The run converges within one more superstep than there are nodes, if it may carry out so many
    and is not cancelled. Then each node holds the least that any walk carries to it. -/
theorem converges [Memory.Allocator]
    (htracker : ∀ report state, (tracker.take report state).2 = none)
    (hfits : r.Fits) (hlimit : r.nodeCount + 1 ≤ r.config.maxIterations)
    (hflag : ∀ j ≤ r.nodeCount, flag.isCancelled j = false) :
    ∃ result, (Run.under schedule state flag).ending = .finished result ∧
      result.termination = .converged ∧ result.ranIterations ≤ r.nodeCount + 1 ∧
      ∀ v, r.graph.IsNode v → ∃ m x, result.values.get? v.index = some m ∧ read m = some x ∧
        IsLeast {y | ∃ j, y ∈ r.graph.Carried along start j v} x := by
  obtain ⟨result, hresult⟩ : ∃ result,
      (Run.under schedule state flag).ending = .finished result := h.finishes htracker hfits
  obtain ⟨f, hcourse, hstop, hvalues⟩ := finished_spec hresult
  have hran : result.ranIterations ≤ r.nodeCount + 1 := by
    by_contra hlt
    obtain ⟨f', stats', hcourse', hgoing, -⟩ := hcourse.going (Nat.lt_of_not_le hlt)
    exact (stop?_eq_none_iff.1 hgoing).1 (Finset.card_eq_zero.2 (h.asleep hup hcourse'))
  have hasleep : f.active = ∅ := by
    by_contra hne
    have hbefore : result.ranIterations ≠ r.nodeCount + 1 := fun heq =>
      hne (h.asleep hup (heq ▸ hcourse))
    have hnone : r.stop? flag f.active.card result.ranIterations = none :=
      stop?_eq_none_iff.2 ⟨fun hzero => hne (Finset.card_eq_zero.1 hzero), by omega,
        hflag _ (by omega)⟩
    rw [hnone] at hstop
    cases hstop
  refine ⟨result, hresult, ?_, hran, fun v hv => ?_⟩
  · rw [stop?_eq_converged_iff.2 (Finset.card_eq_zero.2 hasleep)] at hstop
    exact (Option.some.inj hstop).symm
  · obtain ⟨x, hx, hleast⟩ := (h.frontier hcourse).isLeast_of_asleep h.relaxing hasleep hv
    exact ⟨f.value v.index, x, hvalues v.index hv, hx, hleast⟩

end Relaxes

end Superstep.Run
