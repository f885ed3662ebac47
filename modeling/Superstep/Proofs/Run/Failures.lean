import Superstep.Proofs.Machine.Failure
import Superstep.Proofs.Run.Schedules

/-!
# Failures surface exactly

Workers that fail race to record their failures, and the others stop where they are. What a run
reports all the same is a failure of its machine: it comes from the first superstep in which some
step of the machine fails, and it is how the step of one of the nodes fails there. Which of them is
left to the schedule; with one worker it is the first one.

Results:
* `Run.Course.reference`: the frames of a run differ from those of the machine in the order of
  messages and in nothing else.
* `failures_surface`: a run fails exactly if its machine does, and as a node of its machine does.
-/

namespace Superstep

/-- What the steps of a computation do, and how they fail, does not depend on the order of their
    messages. -/
def Computation.Symmetric {W V M : Type} (c : Computation W V M) : Prop :=
  ∀ (view : NodeView W V M) (messages : List M), view.messages.Perm messages →
    c.step { view with messages } = c.step view

theorem Computation.Symmetric.orderBlind {W V M : Type} {c : Computation W V M}
    (h : c.Symmetric) : c.OrderBlind := by
  intro view messages hperm
  rw [h view messages hperm]
  exact .refl _

variable {W V M T : Type} [Message M]

/-! ## The machine -/

/-- The steps of two frames that differ in the order of messages have the same outcomes, if the
    order of messages does not even matter to how they fail. -/
theorem Frame.Alike.outcome_eq {p : Program W V M} {f f' : Frame V M} {t i : Nat}
    (h : f.Alike f')
    (hp : p.reduction.OrderFree ∨ (p.reduction.isCombining = false ∧ p.computation.Symmetric))
    (hf : f.Proper p) : p.outcome f' t i = p.outcome f t i := by
  unfold Program.outcome
  rw [h.value]
  rcases hp with hfree | ⟨-, hsymmetric⟩
  · rw [h.inbox_eq hfree hf]
  · exact hsymmetric ⟨p.graph, .ofIndex i, t, f.value i, f.inbox i⟩ _ (h.inbox i)

theorem Frame.Alike.fails_iff {p : Program W V M} {f f' : Frame V M} {t i : Nat} {e : RunError}
    (h : f.Alike f')
    (hp : p.reduction.OrderFree ∨ (p.reduction.isCombining = false ∧ p.computation.Symmetric))
    (hf : f.Proper p) : p.Fails f' t i e ↔ p.Fails f t i e := by
  rw [Program.fails_iff, Program.fails_iff]
  unfold Program.failure? Program.attempts
  rw [h.outcome_eq hp hf]

namespace Run

variable {r : Run W V M} {flag : TerminationFlag} {k : Nat} {f : Frame V M}
  {stats : List SuperstepStats}

/-- Superstep `k` is the first one of the machine in which a step fails, and the machine gets there:
    it has not converged, it has not reached its largest number of supersteps, and it has not been
    cancelled. -/
structure FailsAt (r : Run W V M) (flag : TerminationFlag) (k : Nat) : Prop where
  going : ∀ j ≤ k, r.stop? flag (r.program.frame r.initialFrame j).active.card j = none
  flawless : ∀ j < k, ∀ i ∈ (r.program.frame r.initialFrame j).active, ∀ e,
    ¬ r.program.Fails (r.program.frame r.initialFrame j) j i e
  fails : ∃ i ∈ (r.program.frame r.initialFrame k).active, ∃ e,
    r.program.Fails (r.program.frame r.initialFrame k) k i e

theorem FailsAt.unique {j : Nat} (h : r.FailsAt flag j) (h' : r.FailsAt flag k) : j = k := by
  have hle : ∀ {a b}, r.FailsAt flag a → r.FailsAt flag b → b ≤ a := by
    intro a b ha hb
    by_contra hlt
    obtain ⟨i, hi, e, hfails⟩ := ha.fails
    exact hb.flawless a (Nat.lt_of_not_le hlt) i hi e hfails
  exact Nat.le_antisymm (hle h' h) (hle h h')

/-- The frames of a run differ from those of the machine in the order of messages and in nothing
    else, and the machine has got there without a failure. -/
theorem Course.reference (h : r.Course flag k f stats)
    (hp : r.reduction.OrderFree ∨ (r.reduction.isCombining = false ∧ r.computation.Symmetric)) :
    (r.program.frame r.initialFrame k).Alike f ∧
      (r.program.frame r.initialFrame k).Proper r.program ∧
      ∀ j < k, r.stop? flag (r.program.frame r.initialFrame j).active.card j = none ∧
        r.program.Flawless (r.program.frame r.initialFrame j) j := by
  have hunordered : r.program.Unordered := hp.imp_right fun h => ⟨h.1, h.2.orderBlind⟩
  induction h with
  | start => exact ⟨.refl _, r.proper_initialFrame, fun j hj => absurd hj (Nat.not_lt_zero j)⟩
  | @superstep k f stats arrived hcourse hgoing hflawless hperm _ ih =>
    obtain ⟨halike, hproper, hbefore⟩ := ih
    have hhere : r.program.Flawless (r.program.frame r.initialFrame k) k := by
      rw [Program.flawless_iff] at hflawless ⊢
      intro i hi e hfails
      exact hflawless i (halike.active ▸ hi) e ((halike.fails_iff hp hproper).2 hfails)
    refine ⟨halike.after hunordered hproper .rfl hperm, hproper.next hhere, ?_⟩
    intro j hj
    rcases Nat.lt_succ_iff_lt_or_eq.1 hj with hlt | rfl
    · exact hbefore j hlt
    · exact ⟨halike.active ▸ hgoing, hhere⟩

/-- Where a step of a run fails, the machine fails. -/
theorem Course.failsAt (h : r.Course flag k f stats)
    (hp : r.reduction.OrderFree ∨ (r.reduction.isCombining = false ∧ r.computation.Symmetric))
    (hgoing : r.stop? flag f.active.card k = none) {i : Nat} (hi : i ∈ f.active) {e : RunError}
    (hfails : r.program.Fails f k i e) : r.FailsAt flag k := by
  obtain ⟨halike, hproper, hbefore⟩ := h.reference hp
  refine ⟨?_, ?_, i, halike.active ▸ hi, e, (halike.fails_iff hp hproper).1 hfails⟩
  · intro j hj
    rcases Nat.lt_or_eq_of_le hj with hlt | rfl
    · exact (hbefore j hlt).1
    · exact halike.active ▸ hgoing
  · intro j hj
    exact Program.flawless_iff.1 (hbefore j hj).2

/-- A run with a result does not come past a superstep in which the machine fails. -/
theorem FailsAt.not_finished (h : r.FailsAt flag k) {n : Nat} (hcourse : r.Course flag n f stats)
    (hp : r.reduction.OrderFree ∨ (r.reduction.isCombining = false ∧ r.computation.Symmetric))
    (hstop : r.stop? flag f.active.card n ≠ none) : False := by
  obtain ⟨halike, -, hbefore⟩ := hcourse.reference hp
  rcases Nat.lt_or_ge k n with hlt | hle
  · obtain ⟨i, hi, e, hfails⟩ := h.fails
    exact Program.flawless_iff.1 (hbefore k hlt).2 i hi e hfails
  · rw [halike.active] at hstop
    exact hstop (h.going n hle)

end Run

/-! ## Runs -/

/-- A worker that is alone has the active nodes in ascending order, so that the one at which it
    fails is the first one that fails. -/
theorem Team.le_of_alone {W V M : Type} {p : Program W V M} {w : Worker} (ht : Team p [w])
    {f : Frame V M} (hf : f.Proper p) {t i : Nat} {before after : List Nat}
    (hshare : p.share f w = before ++ i :: after) (hbefore : ∀ j ∈ before, p.failure? f t j = none)
    {j : Nat} (hj : j ∈ f.active) {e : RunError} (hfail : p.failure? f t j = some e) : i ≤ j := by
  have hnodes : p.nodes f = before ++ i :: after := by
    rw [← hshare, ← ht.flatMap_share, List.flatMap_singleton]
  have hsorted : (p.nodes f).Pairwise (· < ·) := List.pairwise_lt_range.filter _
  have hmem : j ∈ p.nodes f := Program.mem_nodes.2 ⟨hf.active_lt j hj, hj⟩
  rw [hnodes] at hsorted hmem
  rcases List.mem_append.1 hmem with hmem | hmem
  · rw [hbefore j hmem] at hfail
    cases hfail
  · rcases List.mem_cons.1 hmem with rfl | hmem
    · exact le_rfl
    · have hafter := (List.pairwise_append.1 hsorted).2.1
      exact Nat.le_of_lt ((List.pairwise_cons.1 hafter).1 j hmem)

section

variable {r : Run W V M} {tracker : Tracker T} {schedule : Schedule (r.job tracker)} {state : T}
  {flag : TerminationFlag}

/-- What a run reports that fails. -/
theorem Run.failed_at [Memory.Allocator] (hfits : r.Fits)
    (hp : r.reduction.OrderFree ∨ (r.reduction.isCombining = false ∧ r.computation.Symmetric))
    (htracker : ∀ report state, (tracker.take report state).2 = none) {e : RunError}
    (h : (Run.under schedule state flag).ending = .failed e) :
    ∃ k i, r.FailsAt flag k ∧ i ∈ (r.program.frame r.initialFrame k).active ∧
      r.program.Fails (r.program.frame r.initialFrame k) k i e ∧
      (r.config.concurrency = 1 → ∀ j ∈ (r.program.frame r.initialFrame k).active, ∀ e',
        r.program.Fails (r.program.frame r.initialFrame k) k j e' → i ≤ j) := by
  rcases Run.failed_spec h with ⟨-, hfull⟩ |
    ⟨workers, w, k, f, stats, hw, hmem, hcourse, hgoing, hcause⟩
  · exact absurd hfits hfull
  obtain ⟨before, i, after, hshare, hbefore, hfail⟩ := hcause.exists_failure? htracker
  have hi : i ∈ f.active := Program.active_of_share hshare
  have hfails : r.program.Fails f k i e := Program.fails_iff.2 hfail
  obtain ⟨halike, hproper, -⟩ := hcourse.reference hp
  refine ⟨k, i, hcourse.failsAt hp hgoing hi hfails, halike.active ▸ hi,
    (halike.fails_iff hp hproper).1 hfails, ?_⟩
  intro hone j hj e' hfails'
  have hlength : workers.length = 1 := by
    have hlt : i < r.nodeCount := hcourse.proper.active_lt i hi
    rw [hw.length_eq, hone]
    omega
  obtain ⟨v, rfl⟩ := List.length_eq_one_iff.1 hlength
  obtain rfl := List.mem_singleton.1 hmem
  exact hw.team.le_of_alone hcourse.proper hshare hbefore (halike.active.symm ▸ hj)
    (Program.fails_iff.1 ((halike.fails_iff hp hproper).2 hfails'))

theorem Run.finished_or_failed [Memory.Allocator]
    (htracker : ∀ report state, (tracker.take report state).2 = none) :
    (∃ result, (Run.under schedule state flag).ending = .finished result) ∨
      ∃ e, (Run.under schedule state flag).ending = .failed e := by
  cases hending : (Run.under schedule state flag).ending with
  | finished result => exact .inl ⟨result, rfl⟩
  | failed e => exact .inr ⟨e, rfl⟩
  | unwound payload =>
    obtain ⟨report, state, -, hpanic⟩ := Run.unwound_spec hending
    rw [htracker] at hpanic
    cases hpanic

/-- A run that fits in memory and whose tracker does not panic has a result, if no step fails in a
    superstep that it may begin. -/
theorem Run.finishes_of_flawless [Memory.Allocator]
    (htracker : ∀ report state, (tracker.take report state).2 = none) (hfits : r.Fits)
    (hflawless : ∀ k f stats, r.Course flag k f stats → r.stop? flag f.active.card k = none →
      r.program.Flawless f k) :
    ∃ result, (Run.under schedule state flag).ending = .finished result := by
  refine (Run.finished_or_failed htracker).resolve_right ?_
  rintro ⟨e, he⟩
  rcases Run.failed_spec he with ⟨-, hfull⟩ |
    ⟨workers, w, k, f, stats, -, -, hcourse, hgoing, hcause⟩
  · exact hfull hfits
  · obtain ⟨before, i, after, hshare, -, hfail⟩ := hcause.exists_failure? htracker
    have hnone := hflawless k f stats hcourse hgoing i (Program.active_of_share hshare)
    cases hnone.symm.trans hfail

end

/-- A run under any schedule, whose storage fits in memory and whose tracker does not panic, when
    the order of messages does not matter to its machine. It fails exactly if there is a superstep
    that the machine reaches before it has to stop, and in which the step of an active node fails;
    otherwise it has a result. What it reports is from the first such superstep: it names one of
    the nodes whose steps fail there, and it is how the step of that node fails. With one worker
    this is the node with the smallest id. -/
theorem failures_surface [Memory.Allocator] {r : Run W V M} (hfits : r.Fits)
    (horder : r.reduction.OrderFree ∨
      (r.reduction.isCombining = false ∧ r.computation.Symmetric))
    {tracker : Tracker T} (htracker : ∀ report state, (tracker.take report state).2 = none)
    (schedule : Schedule (r.job tracker)) (state : T) (flag : TerminationFlag) :
    ((∃ e, (Run.under schedule state flag).ending = .failed e) ↔ ∃ k, r.FailsAt flag k) ∧
    ((¬ ∃ k, r.FailsAt flag k) →
      ∃ result, (Run.under schedule state flag).ending = .finished result) ∧
    ∀ e, (Run.under schedule state flag).ending = .failed e →
      ∃ k i, r.FailsAt flag k ∧ i ∈ (r.program.frame r.initialFrame k).active ∧
        e.location? = some (.ofIndex i, k) ∧
        r.program.Fails (r.program.frame r.initialFrame k) k i e ∧
        (r.config.concurrency = 1 → ∀ j ∈ (r.program.frame r.initialFrame k).active, ∀ e',
          r.program.Fails (r.program.frame r.initialFrame k) k j e' → i ≤ j) := by
  have hiff : (∃ e, (Run.under schedule state flag).ending = .failed e) ↔
      ∃ k, r.FailsAt flag k := by
    constructor
    · rintro ⟨e, h⟩
      obtain ⟨k, i, hat, -⟩ := Run.failed_at hfits horder htracker h
      exact ⟨k, hat⟩
    · rintro ⟨k, hat⟩
      refine (Run.finished_or_failed htracker).resolve_left ?_
      rintro ⟨result, hfinished⟩
      obtain ⟨f, hcourse, hstop, -⟩ := Run.finished_spec hfinished
      refine hat.not_finished hcourse horder ?_
      rw [hstop]
      exact Option.some_ne_none _
  refine ⟨hiff, ?_, ?_⟩
  · intro hnot
    exact (Run.finished_or_failed htracker).resolve_right fun h => hnot (hiff.1 h)
  · intro e h
    obtain ⟨k, i, hat, hi, hfails, hone⟩ := Run.failed_at hfits horder htracker h
    exact ⟨k, i, hat, hi, hfails.location?, hfails, hone⟩

/-- A run with two workers on two nodes, in which the step of node 1 returns an error. -/
def failingRun : Run Unit (Unsigned 64) (Unsigned 64) where
  graph := twoNodes
  config := { Config.default 2 with combiner := .min }
  computation := {
    init _ _ := .ofNat 0
    step view := ⟨view.value, [], true, if view.node.val = 1 then some (.error "no") else none⟩
    combiner := none }
  accepted := rfl

/-- It reports the error of node 1. -/
theorem failures_surface_failingRun :
    failingRun.Fits ∧ failingRun.reduction.OrderFree ∧
      (Run.under (.inOrder (failingRun.job Tracker.silent)) () .never).ending =
        .failed (.computation ⟨1⟩ 0 "no") := by
  obtain ⟨d, workers, hprepare⟩ : ∃ d workers,
      failingRun.prepare Tracker.silent () = .ok (d, workers) := ⟨_, _, rfl⟩
  have hfits := failingRun.fits_of_prepare hprepare
  have hfree : failingRun.reduction.OrderFree := Reduction.orderFree_unsigned 64 (.inr (.inl rfl))
  obtain ⟨hiff, -, hreport⟩ := failures_surface hfits (.inl hfree) (fun _ _ => rfl)
    (.inOrder (failingRun.job Tracker.silent)) () .never
  have hat : failingRun.FailsAt .never 0 := by
    refine ⟨?_, fun j hj => absurd hj (Nat.not_lt_zero j), 1, ?_, .computation ⟨1⟩ 0 "no", ?_⟩
    · intro j hj
      obtain rfl := Nat.le_zero.1 hj
      rfl
    · exact Finset.mem_range.2 (by decide)
    · exact Program.fails_iff.2 rfl
  obtain ⟨e, he⟩ := hiff.2 ⟨0, hat⟩
  obtain ⟨k, i, hk, hi, -, hfails, -⟩ := hreport e he
  obtain rfl := hk.unique hat
  have hlt : i < 2 := Finset.mem_range.1 hi
  rw [Program.fails_iff] at hfails
  refine ⟨hfits, hfree, ?_⟩
  rw [he]
  interval_cases i
  · cases hfails
  · cases hfails
    rfl

end Superstep
