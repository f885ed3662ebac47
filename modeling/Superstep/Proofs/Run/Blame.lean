import Superstep.Proofs.Crew.Panics
import Superstep.Proofs.Run.Failures
import Superstep.Proofs.Run.Progress

/-!
# Whom a panic is blamed on

A panic is blamed on a node when it happens between the moment at which the worker takes up the node
and the one at which it is through with its nodes. So a node is blamed for its own panic, but also
for a panic of the tracker at a full batch that ends with it. A panic of the tracker at the last
report of a worker is blamed on the worker.

Results:
* `Run.blamed_node`: what has happened when a panic is blamed on a node.
* `Run.traced_of_failed`: the superstep in which a run fails.
* `Run.ends_with`: a run does not go on behind a superstep with a failure.
* `panics_blamed`: a tracker that does not panic at full batches is never mistaken for a node.
* `tracker_blamed_on_node`: one that does is.
-/

namespace Superstep

variable {W V M T : Type} [Message M]

namespace Run

variable [Memory.Allocator] {r : Run W V M} {tracker : Tracker T} {state : T}
  {flag : TerminationFlag}

/-- A node is blamed for a panic if its own step has panicked, or if the tracker has panicked at the
    report of a full batch; then the step of the node has not failed. -/
theorem blamed_node {schedule : Schedule (r.job tracker)} {node : NodeId} {t : Nat}
    {message : String}
    (h : (Run.under schedule state flag).ending =
      .failed (.computationPanicked node t message)) :
    ∃ f stats i, r.Course flag t f stats ∧ i ∈ f.active ∧ node = .ofIndex i ∧
      (r.program.Fails f t i (.computationPanicked node t message) ∨
        (∀ e, ¬ r.program.Fails f t i e) ∧ ∃ n state payload, r.config.progressBatchSize ≤ n ∧
          (tracker.take (.logProgress n) state).2 = some payload ∧ message = payload.message) := by
  rcases Run.failed_spec h with ⟨⟨what, n, hresource⟩, -⟩ |
    ⟨workers, w, k, f, stats, -, -, hcourse, -, hcause⟩
  · cases hresource
  generalize he : RunError.computationPanicked node t message = e at hcause
  cases hcause with
  | @step before after i e hshare _ hfail =>
    subst he
    have hfails : r.program.Fails f k i (.computationPanicked node t message) :=
      Program.fails_iff.2 hfail
    cases hfails.location?
    exact ⟨f, stats, i, hcourse, Program.active_of_share hshare, rfl, .inl hfails⟩
  | @batch before after i n state payload hshare hflawless hfull hpanic =>
    cases he
    refine ⟨f, stats, i, hcourse, Program.active_of_share hshare, rfl,
      .inr ⟨?_, n, state, payload, hfull, hpanic, rfl⟩⟩
    intro e hfails
    have hnone : r.program.failure? f t i = none := hflawless i (by simp)
    rw [Program.fails_iff.1 hfails] at hnone
    cases hnone
  | rest _ _ => cases he

/-! ## The superstep in which a run fails -/

variable {x : TracedSchedule (r.job tracker)} {k : Nat} {d : Driver V M T} {calls : List Call}

omit [Memory.Allocator] in
/-- A driver that fails has begun the superstep with the failure. -/
theorem At.begun_of_failed {f : Frame V M} {workers : List Worker} (h : r.At flag k f d)
    (hw : r.Staffed workers) {remaining : Nat} (hremaining : k + remaining = r.config.maxIterations)
    {d' : Driver V M T} {e : RunError}
    (hdrive : d.drive (r.job tracker) (x.schedule.play workers) flag remaining =
      (d', .failed e)) :
    ∃ y ∈ r.begun tracker (x.play workers) flag remaining d,
      (x.play workers y.1.supersteps.size y.1.store (y.1.opened tracker)).1.failure = some e := by
  induction remaining using Nat.strong_induction_on generalizing k f d with
  | _ remaining ih =>
    generalize hresult : d.drive (r.job tracker) (x.schedule.play workers) flag remaining = result
    have hdrives := h.drives tracker (x.schedule.play workers) hremaining
    rw [hresult] at hdrives hdrive
    cases hdrives with
    | stops _ _ _ => cases hdrive
    | unopened _ _ _ => cases hdrive
    | unclosed _ _ _ => cases hdrive
    | fails hn hgoing hadvance hfailure _ =>
      cases hdrive
      subst hn
      rw [begun_of_advance (h.size_eq ▸ hgoing) hadvance]
      exact ⟨_, List.mem_cons_self .., h.size_eq.symm ▸ hfailure⟩
    | @goes n _ hn hgoing hadvance _ _ =>
      subst hn
      obtain ⟨f', h'⟩ := h.advance hw hadvance
      obtain ⟨y, hmem, hy⟩ := ih n (Nat.lt_succ_self n) h' (by omega) hdrive
      rw [begun_of_advance (h.size_eq ▸ hgoing) hadvance]
      exact ⟨y, List.mem_cons_of_mem _ hmem, hy⟩

/-- A run that fails has begun a superstep in which its workers have recorded the failure, unless it
    does not fit in memory. -/
theorem traced_of_failed {e : RunError} (h : (Run.under x.schedule state flag).ending = .failed e) :
    (∃ what n, e = .resourceExhausted what n) ∨
      ∃ k d calls workers c, (r.started tracker x.play state flag)[k]? = some (d, calls) ∧
        Crew.Traces (r.job tracker) k workers d.store (d.opened tracker) c calls ∧
        c.shared.failure = some e := by
  unfold under performBy at h
  cases hprepare : r.prepare tracker state with
  | error report =>
    rw [hprepare] at h
    exact .inl (r.prepare_failed hprepare h).1
  | ok start =>
    obtain ⟨d₀, workers⟩ := start
    obtain ⟨hat, hw⟩ := at_start hprepare flag
    simp only [hprepare] at h
    cases hdrive : d₀.drive (r.job tracker) (x.schedule.play workers) flag
        r.config.maxIterations with
    | mk d' ending =>
      rw [hdrive] at h
      cases ending with
      | finished termination => cases h
      | unwound payload => cases h
      | failed e' =>
        cases h
        obtain ⟨y, hmem, hfailure⟩ := hat.begun_of_failed hw (Nat.zero_add _) hdrive
        have hstarted : r.started tracker x.play state flag = _ := started_of_prepare hprepare
        rw [← hstarted] at hmem
        obtain ⟨k, hk⟩ := List.getElem?_of_mem hmem
        obtain ⟨_, _, f, hprepare', -, hat', -, hplay⟩ :=
          getElem?_started x.schedule (fun _ => rfl) hk
        cases hprepare.symm.trans hprepare'
        obtain ⟨c, htraces, -, hround⟩ := x.traced workers k y.1.store (y.1.opened tracker)
        rw [hat'.size_eq, hround] at hfailure
        exact .inr ⟨k, y.1, y.2, workers, c, hk, hplay ▸ htraces, hfailure⟩

/-- The workers of a superstep that a run begins, unless the tracker panics when it is begun. If
    they record a failure, it has a cause, and the run ends with it unless the tracker panics when
    the superstep is ended. -/
theorem ends_with (h : (r.started tracker x.play state flag)[k]? = some (d, calls))
    (hbegun : (tracker.take (.beginSubTask d.activeNodes) d.tracker).2 = none) :
    ∃ workers c, Crew.Traces (r.job tracker) k workers d.store (d.opened tracker) c calls ∧
      c.Finished workers ∧ ∀ e, c.shared.failure = some e →
        (∃ f stats w, r.Course flag k f stats ∧ Cause (r.job tracker) k f w e) ∧
        ((∃ payload, (Run.under x.schedule state flag).ending = .unwound payload ∧
          (tracker.take .endSubTask c.shared.tracker).2 = some payload) ∨
        (Run.under x.schedule state flag).ending = .failed e) := by
  obtain ⟨d₀, workers, f, hprepare, hafter, hat, hgoing, hplay⟩ :=
    getElem?_started x.schedule (fun _ => rfl) h
  obtain ⟨hstart, hw⟩ := at_start hprepare flag
  obtain ⟨c, htraces, hfinished, hround⟩ := x.traced workers k d.store (d.opened tracker)
  have hshared : x.schedule.play workers k d.store (d.opened tracker) = c.round workers := hround
  obtain rfl : calls = (x.play workers k d.store (d.opened tracker)).2 := hplay
  refine ⟨workers, c, htraces, hfinished, fun e he => ?_⟩
  have hinterleaving := x.schedule.interleaving workers k d.store (d.opened tracker)
  rw [hshared] at hinterleaving
  obtain ⟨w, -, hcause⟩ := hinterleaving.exists_cause hw.team hat.store he
  refine ⟨⟨f, _, w, hat.course, hcause⟩, ?_⟩
  rw [after_of_prepare hprepare] at hafter
  obtain ⟨n, hn, hsame⟩ := hstart.drive_of_proceed hw (Nat.zero_add _) hafter
  have hending : (Run.under x.schedule state flag).ending =
      ((d.drive (r.job tracker) (x.schedule.play workers) flag n).1.close
        (d.drive (r.job tracker) (x.schedule.play workers) flag n).2).ending := by
    unfold under performBy
    simp only [hprepare, hsame]
  generalize hresult : d.drive (r.job tracker) (x.schedule.play workers) flag n = result at hending
  have hdrives := hat.drives tracker (x.schedule.play workers) (by omega : k + n = _)
  rw [hresult] at hdrives
  cases hdrives with
  | stops hstop _ _ => cases hgoing.symm.trans hstop
  | unopened _ _ hpanic => cases hbegun.symm.trans hpanic
  | unclosed _ _ hpanic =>
    rw [hshared] at hpanic
    exact .inl ⟨_, hending, hpanic⟩
  | fails _ _ _ hfailure _ =>
    rw [hshared] at hfailure
    cases hfailure.symm.trans he
    exact .inr hending
  | goes _ _ _ hfailure _ =>
    rw [hshared] at hfailure
    cases hfailure.symm.trans he

end Run

/-! ## Blame -/

/-- A run under any schedule whose tracker does not panic at the report of a full batch. If a panic
    is blamed on a node, the step of this node has panicked in that superstep. If a panic is blamed
    on a worker, the tracker has panicked at one of the calls that the workers have made in a
    superstep that the run has begun. And if no step fails, but the tracker panics at a call of the
    workers of a superstep, then such a panic is blamed on the worker and reported with the text of
    the tracker, unless the tracker panics once more when the superstep is ended, which unwinds the
    run. -/
theorem panics_blamed [Memory.Allocator] {r : Run W V M} {tracker : Tracker T}
    (hbatch : ∀ n state, r.config.progressBatchSize ≤ n →
      (tracker.take (.logProgress n) state).2 = none)
    (x : TracedSchedule (r.job tracker)) (state : T) (flag : TerminationFlag) :
    let ending := (Run.under x.schedule state flag).ending
    let begun := r.started tracker x.play state flag
    let panics (d : Driver V M T) (calls : List Call) :=
      tracker.panics (calls.map Call.report) (d.opened tracker)
    (∀ node t message, ending = .failed (.computationPanicked node t message) →
      ∃ f stats i, r.Course flag t f stats ∧ i ∈ f.active ∧ node = .ofIndex i ∧
        r.program.Fails f t i (.computationPanicked node t message)) ∧
    (∀ message, ending = .failed (.workerPanicked message) →
      ∃ (k : Nat) (d : Driver V M T) (calls : List Call), begun[k]? = some (d, calls) ∧
        (∀ call ∈ calls, 0 < call.amount) ∧
        ∃ payload ∈ panics d calls, message = payload.message) ∧
    ∀ (k : Nat) (d : Driver V M T) (calls : List Call), begun[k]? = some (d, calls) →
      (tracker.take (.beginSubTask d.activeNodes) d.tracker).2 = none → panics d calls ≠ [] →
      (∀ t f stats, r.Course flag t f stats → r.program.Flawless f t) →
        (∃ payload, ending = .unwound payload ∧ (tracker.take .endSubTask
          (tracker.replay (calls.map Call.report) (d.opened tracker))).2 = some payload) ∨
        ∃ payload ∈ panics d calls, ending = .failed (.workerPanicked payload.message) := by
  refine ⟨fun node t message h => ?_, fun message h => ?_, ?_⟩
  · obtain ⟨f, stats, i, hcourse, hi, hnode, hfails | ⟨-, n, state, payload, hfull, hpanic, -⟩⟩ :=
      Run.blamed_node h
    · exact ⟨f, stats, i, hcourse, hi, hnode, hfails⟩
    · rw [hbatch n state hfull] at hpanic
      cases hpanic
  · rcases Run.traced_of_failed h with ⟨what, n, hresource⟩ |
      ⟨k, d, calls, workers, c, hbegun, htraces, hfailure⟩
    · cases hresource
    · exact ⟨k, d, calls, hbegun, htraces.amount_pos (Run.progressBatchSize_pos r),
        htraces.answers.shared message hfailure⟩
  · intro k d calls hbegun hopened hpanics hflawless
    obtain ⟨workers, c, htraces, hfinished, hends⟩ := Run.ends_with hbegun hopened
    obtain ⟨e, he⟩ := Option.isSome_iff_exists.1
      (htraces.answers.isSome_of_finished hfinished hpanics)
    obtain ⟨⟨f, stats, w, hcourse, hcause⟩, ⟨payload, hunwound, hpanic⟩ | hfailed⟩ := hends e he
    · exact .inl ⟨payload, hunwound, htraces.tracker_eq ▸ hpanic⟩
    · cases hcause with
      | @step before after i e hshare _ hfail =>
        have hnone := hflawless k f stats hcourse i (Program.active_of_share hshare)
        rw [show r.program.failure? f k i = some e from hfail] at hnone
        cases hnone
      | @batch _ _ _ n state _ _ _ hfull hpanic =>
        cases (hbatch n state hfull).symm.trans hpanic
      | rest _ _ =>
        obtain ⟨payload, hmem, hmessage⟩ := htraces.answers.shared _ he
        exact .inr ⟨payload, hmem, hmessage ▸ hfailed⟩

/-- Steps that do nothing. -/
def idleNodes : Computation Unit (Unsigned 64) (Unsigned 64) where
  init _ _ := .ofNat 0
  step view := ⟨view.value, [], true, none⟩
  combiner := none

/-- A run with one worker on two nodes that take such steps, with batches of the given size. -/
def idleRun (batchSize : Nat)
    (h : checkRun twoNodes { Config.default 1 with progressBatchSize := batchSize } idleNodes =
      .ok ()) : Run Unit (Unsigned 64) (Unsigned 64) :=
  ⟨twoNodes, { Config.default 1 with progressBatchSize := batchSize }, idleNodes, h⟩

/-- A tracker that panics when few nodes are reported. -/
def fussyTracker : Tracker Unit where
  take report _ :=
    match report with
    | .logProgress n => ((), if n < 4096 then some (.text "too few") else none)
    | _ => ((), none)

/-- With batches that are larger than the graph it panics at the last report. -/
theorem panics_blamed_idleRun :
    (∀ n state, 4096 ≤ n → (fussyTracker.take (.logProgress n) state).2 = none) ∧
      ∃ x : TracedSchedule ((idleRun 4096 rfl).job fussyTracker),
        x.schedule = .inOrder ((idleRun 4096 rfl).job fussyTracker) ∧
        (Run.under x.schedule () .never).ending = .failed (.workerPanicked "too few") ∧
        ∃ (k : Nat) (d : Driver (Unsigned 64) (Unsigned 64) Unit) (calls : List Call),
          ((idleRun 4096 rfl).started fussyTracker x.play () .never)[k]? = some (d, calls) ∧
            .text "too few" ∈
              fussyTracker.panics (calls.map Call.report) (d.opened fussyTracker) := by
  have hbatch : ∀ n state, 4096 ≤ n → (fussyTracker.take (.logProgress n) state).2 = none := by
    intro n state hn
    unfold fussyTracker
    simp only [Nat.not_lt.2 hn, if_false]
  obtain ⟨x, hx⟩ := (Schedule.inOrder ((idleRun 4096 rfl).job fussyTracker)).exists_traced
  obtain ⟨-, hworker, -⟩ := panics_blamed (r := idleRun 4096 rfl) hbatch x () .never
  have hending : (Run.under x.schedule () .never).ending =
      .failed (.workerPanicked "too few") := by
    rw [hx]
    cbv
  obtain ⟨k, d, calls, hbegun, -, payload, hmem, hmessage⟩ := hworker "too few" hending
  have htext : payload = .text "too few" := by
    cases payload with
    | text message => exact congrArg _ hmessage.symm
    | other => exact absurd hmessage (by decide)
  exact ⟨hbatch, x, hx, hending, k, d, calls, hbegun, htext ▸ hmem⟩

/-- With batches of one node it panics at a full batch, and node 0 is blamed for it although no step
    fails. -/
theorem tracker_blamed_on_node :
    (∀ t f stats, (idleRun 1 rfl).Course .never t f stats →
      (idleRun 1 rfl).program.Flawless f t) ∧
    (Run.under (.inOrder ((idleRun 1 rfl).job fussyTracker)) () .never).ending =
      .failed (.computationPanicked ⟨0⟩ 0 "too few") :=
  ⟨fun _ _ _ _ _ _ => rfl, by cbv⟩

end Superstep
