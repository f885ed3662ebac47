import Superstep.Proofs.Crew.InOrder
import Superstep.Proofs.Crew.Reports
import Superstep.Proofs.Run.Stopping

/-!
# What a run reports

A run tells its tracker that it begins. Then every superstep is a task of its own: it is begun with
its volume, the workers report what they have executed, and it is ended, also when it fails.

A `TracedSchedule` is a schedule that says which calls the workers of every superstep make;
`Schedule.exists_traced`, every schedule can be read as one. `Run.begun` lists the supersteps that a
run begins, and `Run.subTasks` what the tracker sees of them.

Results:
* `Run.getElem?_begun`: a superstep is begun exactly if the run gets there and need not stop.
* `progress_accounted`: the reports of a run, and what they come to.
-/

namespace Superstep

/-- A superstep as a tracker sees it. -/
structure SubTask where
  volume : Nat
  calls : List Call

/-- The reports of a superstep. -/
def SubTask.reports (s : SubTask) : List Report :=
  .beginSubTask s.volume :: s.calls.map Call.report ++ [.endSubTask]

/-- A tracker that panics only when nodes are reported. -/
def Tracker.QuietOutside {T : Type} (tracker : Tracker T) : Prop :=
  ∀ report, (∀ n, report ≠ .logProgress n) → ∀ state, (tracker.take report state).2 = none

theorem Tracker.replay_subTask {T : Type} (tracker : Tracker T) (s : SubTask) (state : T) :
    tracker.replay s.reports state = (tracker.take .endSubTask (tracker.replay
      (s.calls.map Call.report) (tracker.take (.beginSubTask s.volume) state).1)).1 := by
  rw [SubTask.reports, replay_append]
  rfl

variable {W V M T : Type} [Message M]

/-! ## Schedules -/

/-- A choice of an execution for every superstep, with the calls of its workers. -/
structure TracedSchedule (job : Job W V M T) where
  play : List Worker → Nat → NodeStore V M → T → Round V M T × List Call
  traced : ∀ workers t store tracker, ∃ c,
    Crew.Traces job t workers store tracker c (play workers t store tracker).2 ∧
      c.Finished workers ∧ (play workers t store tracker).1 = c.round workers

/-- A schedule without the calls. -/
def TracedSchedule.schedule {job : Job W V M T} (x : TracedSchedule job) : Schedule job where
  play workers t store tracker := (x.play workers t store tracker).1
  interleaving workers t store tracker := by
    obtain ⟨c, htraces, hfinished, hround⟩ := x.traced workers t store tracker
    exact ⟨c, htraces.steps, hfinished, hround⟩

theorem TracedSchedule.tracker_play {job : Job W V M T} (x : TracedSchedule job)
    (workers : List Worker) (t : Nat) (store : NodeStore V M) (tracker : T) :
    (x.play workers t store tracker).1.tracker =
      job.tracker.replay ((x.play workers t store tracker).2.map Call.report) tracker := by
  obtain ⟨c, htraces, -, hround⟩ := x.traced workers t store tracker
  rw [hround]
  exact htraces.tracker_eq

theorem Schedule.exists_traced {job : Job W V M T} (schedule : Schedule job) :
    ∃ x : TracedSchedule job, x.schedule = schedule := by
  have hcalls : ∀ workers t store tracker, ∃ calls c,
      Crew.Traces job t workers store tracker c calls ∧ c.Finished workers ∧
        schedule.play workers t store tracker = c.round workers := by
    intro workers t store tracker
    obtain ⟨c, hsteps, hfinished, hround⟩ := schedule.interleaving workers t store tracker
    obtain ⟨calls, htraces⟩ := Crew.exists_traces hsteps
    exact ⟨calls, c, htraces, hfinished, hround⟩
  choose calls hcalls using hcalls
  exact ⟨⟨fun workers t store tracker => (schedule.play workers t store tracker,
    calls workers t store tracker), hcalls⟩, rfl⟩

/-! ## Supersteps of the driver -/

namespace Driver

omit [Message M] in
/-- What becomes of a superstep: the tracker panics when it is begun, or when it is ended, or it
    ends as its workers have left it. It is ended whether it fails or not. -/
theorem superstep_cases (job : Job W V M T) (play : Nat → NodeStore V M → T → Round V M T)
    (d : Driver V M T) :
    (∃ d' payload, (job.tracker.take (.beginSubTask d.activeNodes) d.tracker).2 = some payload ∧
      d.superstep job play = (d', some (.unwound payload))) ∨
    (job.tracker.take (.beginSubTask d.activeNodes) d.tracker).2 = none ∧
      ((∃ d' payload, (job.tracker.take .endSubTask
          (play d.supersteps.size d.store (d.opened job.tracker)).tracker).2 = some payload ∧
        d.superstep job play = (d', some (.unwound payload))) ∨
      ∃ d', d'.tracker = (job.tracker.take .endSubTask
          (play d.supersteps.size d.store (d.opened job.tracker)).tracker).1 ∧
        d.superstep job play = (d',
          (play d.supersteps.size d.store (d.opened job.tracker)).failure.map .failed)) := by
  unfold superstep report enter opened
  simp only
  split
  · next hbegin => exact .inl ⟨_, _, (Prod.mk.inj hbegin).2, rfl⟩
  · next hbegin =>
    obtain ⟨rfl, hpanic⟩ := Prod.mk.inj hbegin
    refine .inr ⟨hpanic, ?_⟩
    simp only
    split
    · next hend => exact .inl ⟨_, _, (Prod.mk.inj hend).2, rfl⟩
    · next hend =>
      obtain ⟨rfl, -⟩ := Prod.mk.inj hend
      refine .inr ?_
      split
      · next hfailure => exact ⟨_, rfl, by rw [hfailure]; rfl⟩
      · next hfailure => exact ⟨_, rfl, by rw [hfailure]; rfl⟩

end Driver

namespace Run

variable {r : Run W V M} {tracker : Tracker T} {flag : TerminationFlag} {k : Nat} {f : Frame V M}
  {d : Driver V M T} {workers : List Worker}

/-- How the driver of a run goes on from where it stands after `k` supersteps: it stops, or the
    tracker panics when the next superstep is begun or ended, or this superstep fails, or the driver
    goes on behind it. -/
inductive Drives (r : Run W V M) (tracker : Tracker T)
    (play : Nat → NodeStore V M → T → Round V M T) (flag : TerminationFlag) (k remaining : Nat)
    (d : Driver V M T) : Driver V M T × DriverEnding → Prop
  | stops {termination : Termination} {d' : Driver V M T} :
    r.stop? flag d.activeNodes k = some termination → d'.tracker = d.tracker →
      d'.supersteps = d.supersteps →
      Drives r tracker play flag k remaining d (d', .finished termination)
  | unopened {payload : PanicPayload} {d' : Driver V M T} :
    r.stop? flag d.activeNodes k = none → r.advance tracker play flag d = none →
      (tracker.take (.beginSubTask d.activeNodes) d.tracker).2 = some payload →
      Drives r tracker play flag k remaining d (d', .unwound payload)
  | unclosed {payload : PanicPayload} {d' : Driver V M T} :
    r.stop? flag d.activeNodes k = none → r.advance tracker play flag d = none →
      (tracker.take .endSubTask (play k d.store (d.opened tracker)).tracker).2 = some payload →
      Drives r tracker play flag k remaining d (d', .unwound payload)
  | fails {n : Nat} {e : RunError} {d' : Driver V M T} :
    remaining = n + 1 → r.stop? flag d.activeNodes k = none → r.advance tracker play flag d = none →
      (play k d.store (d.opened tracker)).failure = some e →
      d'.tracker = (tracker.take .endSubTask (play k d.store (d.opened tracker)).tracker).1 →
      Drives r tracker play flag k remaining d (d', .failed e)
  | goes {n : Nat} {d' : Driver V M T} :
    remaining = n + 1 → r.stop? flag d.activeNodes k = none →
      r.advance tracker play flag d = some d' →
      (play k d.store (d.opened tracker)).failure = none →
      d'.tracker = (tracker.take .endSubTask (play k d.store (d.opened tracker)).tracker).1 →
      Drives r tracker play flag k remaining d (d'.drive (r.job tracker) play flag n)

theorem At.drives (h : r.At flag k f d) (tracker : Tracker T)
    (play : Nat → NodeStore V M → T → Round V M T)
    {remaining : Nat} (hremaining : k + remaining = r.config.maxIterations) :
    r.Drives tracker play flag k remaining d (d.drive (r.job tracker) play flag remaining) := by
  unfold Driver.drive
  split
  · next hzero =>
    exact .stops (stop?_eq_converged_iff.2 hzero) rfl rfl
  · next hsome =>
    cases remaining with
    | zero =>
      exact .stops (stop?_eq_maxIterationsReached_iff.2 ⟨hsome, by omega⟩) rfl rfl
    | succ n =>
      have hbelow : k < r.config.maxIterations := by omega
      simp only
      split
      · next hcancelled =>
        rw [h.polls] at hcancelled
        exact .stops (stop?_eq_cancelled_iff.2 ⟨hsome, hbelow, hcancelled⟩) rfl rfl
      · next hcancelled =>
        rw [h.polls] at hcancelled
        have hgoing : r.stop? flag d.activeNodes k = none :=
          stop?_eq_none_iff.2 ⟨hsome, hbelow, by simpa using hcancelled⟩
        have hadvance {d' : Driver V M T} {ending : Option DriverEnding}
            (hsuperstep : { d with polls := d.polls + 1 }.superstep (r.job tracker) play =
              (d', ending)) : r.advance tracker play flag d = ending.elim (some d') fun _ => none :=
          advance_of_superstep (h.size_eq.symm ▸ hgoing) hsuperstep
        have hcases := { d with polls := d.polls + 1 }.superstep_cases (r.job tracker) play
        rw [show ({ d with polls := d.polls + 1 } : Driver V M T).supersteps.size = k from
          h.size_eq] at hcases
        rcases hcases with ⟨d', payload, hpanic, hsuperstep⟩ |
          ⟨-, ⟨d', payload, hpanic, hsuperstep⟩ | ⟨d', htracker, hsuperstep⟩⟩
        · rw [hsuperstep]
          exact .unopened hgoing (hadvance hsuperstep) hpanic
        · rw [hsuperstep]
          exact .unclosed hgoing (hadvance hsuperstep) hpanic
        · have hsuperstep : { d with polls := d.polls + 1 }.superstep (r.job tracker) play =
              (d', (play k d.store (d.opened tracker)).failure.map .failed) := hsuperstep
          cases hfailure : (play k d.store (d.opened tracker)).failure with
          | some e =>
            rw [hfailure] at hsuperstep
            rw [hsuperstep]
            exact .fails rfl hgoing (hadvance hsuperstep) hfailure htracker
          | none =>
            rw [hfailure] at hsuperstep
            rw [hsuperstep]
            exact .goes rfl hgoing (hadvance hsuperstep) hfailure htracker

/-! ## The supersteps that a run begins -/

section

variable {α : Type}

/-- The supersteps that a run begins, at most `remaining` of them: where its driver stands before
    each of them, and what `play` notes of it. -/
def begun (r : Run W V M) (tracker : Tracker T)
    (play : Nat → NodeStore V M → T → Round V M T × α) (flag : TerminationFlag) :
    Nat → Driver V M T → List (Driver V M T × α)
  | 0, _ => []
  | remaining + 1, d =>
    if (r.stop? flag d.activeNodes d.supersteps.size).isSome then []
    else
      (d, (play d.supersteps.size d.store (d.opened tracker)).2) ::
        match r.advance tracker (fun t store state => (play t store state).1) flag d with
        | some d' => begun r tracker play flag remaining d'
        | none => []

variable {play : Nat → NodeStore V M → T → Round V M T × α}

theorem begun_of_stop {termination : Termination} {n : Nat}
    (h : r.stop? flag d.activeNodes d.supersteps.size = some termination) :
    r.begun tracker play flag n d = [] := by
  cases n with
  | zero => rfl
  | succ n =>
    rw [begun, h]
    rfl

theorem begun_of_advance {n : Nat} {next : Option (Driver V M T)}
    (h : r.stop? flag d.activeNodes d.supersteps.size = none)
    (hadvance : r.advance tracker (fun t store state => (play t store state).1) flag d = next) :
    r.begun tracker play flag (n + 1) d =
      (d, (play d.supersteps.size d.store (d.opened tracker)).2) ::
        next.elim [] (r.begun tracker play flag n) := by
  rw [begun, h, hadvance]
  cases next <;> rfl

theorem length_begun_le (remaining : Nat) (d : Driver V M T) :
    (r.begun tracker play flag remaining d).length ≤ remaining := by
  induction remaining generalizing d with
  | zero => exact le_rfl
  | succ n ih =>
    unfold begun
    split
    · exact Nat.zero_le _
    · rw [List.length_cons]
      refine Nat.succ_le_succ ?_
      split
      · exact ih _
      · exact Nat.zero_le _

/-- A superstep is begun exactly if the run gets there and need not stop. -/
theorem getElem?_begun {i remaining : Nat} (hi : i < remaining) (d : Driver V M T) :
    (r.begun tracker play flag remaining d)[i]? =
      (r.proceed tracker (fun t store state => (play t store state).1) flag i d).bind fun x =>
        if (r.stop? flag x.activeNodes x.supersteps.size).isSome then none
        else some (x, (play x.supersteps.size x.store (x.opened tracker)).2) := by
  induction remaining generalizing i d with
  | zero => exact absurd hi (Nat.not_lt_zero i)
  | succ n ih =>
    unfold begun
    cases i with
    | zero =>
      rw [proceed, Option.bind_some]
      split <;> rfl
    | succ i =>
      rw [proceed, Option.bind_assoc]
      split
      · next hstop =>
        have hadvance : r.advance tracker (fun t store state => (play t store state).1) flag d =
            none := by
          obtain ⟨termination, hstop⟩ := Option.isSome_iff_exists.1 hstop
          exact advance_of_stop hstop
        rw [hadvance]
        rfl
      · rw [List.getElem?_cons_succ]
        cases r.advance tracker (fun t store state => (play t store state).1) flag d with
        | some d' => exact ih (Nat.lt_of_succ_lt_succ hi) d'
        | none => rfl

end

variable {x : TracedSchedule (r.job tracker)}

/-- What a tracker that does not panic outside of the workers sees of the supersteps that are to
    come. -/
theorem At.tracker_drive (h : r.At flag k f d) (hw : r.Staffed workers)
    (hquiet : tracker.QuietOutside) {remaining : Nat}
    (hremaining : k + remaining = r.config.maxIterations) :
    (d.drive (r.job tracker) (x.schedule.play workers) flag remaining).1.tracker =
      tracker.replay ((r.begun tracker (x.play workers) flag remaining d).flatMap fun y =>
        SubTask.reports ⟨y.1.activeNodes, y.2⟩) d.tracker := by
  have hend : ∀ {k f} {d d' : Driver V M T}, r.At flag k f d →
      d'.tracker = (tracker.take .endSubTask
        (x.schedule.play workers k d.store (d.opened tracker)).tracker).1 →
      d'.tracker = tracker.replay (SubTask.reports ⟨d.activeNodes,
        (x.play workers d.supersteps.size d.store (d.opened tracker)).2⟩) d.tracker := by
    intro k f d d' h hend
    rw [hend, Tracker.replay_subTask, h.size_eq]
    exact congrArg (fun state => (tracker.take .endSubTask state).1)
      (x.tracker_play workers k d.store (d.opened tracker))
  induction remaining using Nat.strong_induction_on generalizing k f d with
  | _ remaining ih =>
    generalize hresult : d.drive (r.job tracker) (x.schedule.play workers) flag remaining = result
    have hdrives := h.drives tracker (x.schedule.play workers) hremaining
    rw [hresult] at hdrives
    cases hdrives with
    | stops hstop htracker _ =>
      rw [begun_of_stop (h.size_eq ▸ hstop)]
      exact htracker
    | unopened _ _ hpanic =>
      rw [hquiet (.beginSubTask _) nofun] at hpanic
      cases hpanic
    | unclosed _ _ hpanic =>
      rw [hquiet .endSubTask nofun] at hpanic
      cases hpanic
    | fails hn hgoing hadvance _ htracker =>
      subst hn
      rw [begun_of_advance (h.size_eq ▸ hgoing) hadvance]
      exact (hend h htracker).trans (congrArg (tracker.replay · d.tracker) (List.append_nil _).symm)
    | @goes n _ hn hgoing hadvance _ htracker =>
      subst hn
      obtain ⟨f', h'⟩ := h.advance hw hadvance
      rw [begun_of_advance (h.size_eq ▸ hgoing) hadvance,
        ih n (Nat.lt_succ_self n) h' (by omega), hend h htracker, ← Tracker.replay_append]
      rfl

/-- A driver that comes to a result has completed all supersteps that it has begun. -/
theorem At.size_drive (h : r.At flag k f d) (hw : r.Staffed workers) {remaining : Nat}
    (hremaining : k + remaining = r.config.maxIterations) {d' : Driver V M T}
    {termination : Termination}
    (hdrive : d.drive (r.job tracker) (x.schedule.play workers) flag remaining =
      (d', .finished termination)) :
    d'.supersteps.size = k + (r.begun tracker (x.play workers) flag remaining d).length := by
  induction remaining using Nat.strong_induction_on generalizing k f d with
  | _ remaining ih =>
    generalize hresult : d.drive (r.job tracker) (x.schedule.play workers) flag remaining = result
    have hdrives := h.drives tracker (x.schedule.play workers) hremaining
    rw [hresult] at hdrives hdrive
    cases hdrives with
    | stops hstop _ hsupersteps =>
      cases hdrive
      rw [begun_of_stop (h.size_eq ▸ hstop), hsupersteps]
      exact h.size_eq
    | unopened _ _ _ => cases hdrive
    | unclosed _ _ _ => cases hdrive
    | fails _ _ _ _ _ => cases hdrive
    | @goes n _ hn hgoing hadvance _ _ =>
      subst hn
      obtain ⟨f', h'⟩ := h.advance hw hadvance
      rw [ih n (Nat.lt_succ_self n) h' (by omega) hdrive,
        begun_of_advance (h.size_eq ▸ hgoing) hadvance, List.length_cons]
      show k + 1 + (r.begun tracker (x.play workers) flag n _).length =
        k + ((r.begun tracker (x.play workers) flag n _).length + 1)
      omega

variable {schedule : Schedule (r.job tracker)}

/-- A driver that gets somewhere goes on from there. -/
theorem At.drive_of_proceed (h : r.At flag k f d) (hw : r.Staffed workers) {remaining : Nat}
    (hremaining : k + remaining = r.config.maxIterations) {i : Nat} {y : Driver V M T}
    (hproceed : r.proceed tracker (schedule.play workers) flag i d = some y) :
    ∃ n, k + i + n = r.config.maxIterations ∧
      d.drive (r.job tracker) (schedule.play workers) flag remaining =
        y.drive (r.job tracker) (schedule.play workers) flag n := by
  induction i generalizing k f d remaining with
  | zero =>
    cases hproceed
    exact ⟨remaining, hremaining, rfl⟩
  | succ i ih =>
    obtain ⟨d₁, hfirst, hrest⟩ := Option.bind_eq_some_iff.1 hproceed
    generalize hresult : d.drive (r.job tracker) (schedule.play workers) flag remaining = result
    have hdrives := h.drives tracker (schedule.play workers) hremaining
    rw [hresult] at hdrives
    cases hdrives with
    | stops hstop _ _ =>
      rw [advance_of_stop (h.size_eq ▸ hstop)] at hfirst
      cases hfirst
    | unopened _ hadvance _ => cases hadvance.symm.trans hfirst
    | unclosed _ hadvance _ => cases hadvance.symm.trans hfirst
    | fails _ _ hadvance _ _ => cases hadvance.symm.trans hfirst
    | @goes n _ hn _ hadvance _ _ =>
      cases hadvance.symm.trans hfirst
      obtain ⟨f₁, h₁⟩ := h.advance hw hfirst
      obtain ⟨m, hm, hdrive⟩ := ih h₁ (show k + 1 + n = _ by omega) hrest
      exact ⟨m, by omega, hdrive⟩

/-- A superstep that is begun is completed, or the run fails in it. -/
theorem At.completes_or_fails (h : r.At flag k f d) (hquiet : tracker.QuietOutside)
    (hgoing : r.stop? flag d.activeNodes k = none) :
    (∃ d', r.advance tracker (schedule.play workers) flag d = some d' ∧
        (schedule.play workers k d.store (d.opened tracker)).failure = none) ∨
      ∃ e, r.advance tracker (schedule.play workers) flag d = none ∧
        (schedule.play workers k d.store (d.opened tracker)).failure = some e ∧
        ∀ n, k + n = r.config.maxIterations → ∃ d',
          d.drive (r.job tracker) (schedule.play workers) flag n = (d', .failed e) := by
  have hlt := (stop?_eq_none_iff.1 hgoing).2.1
  have hn : k + (r.config.maxIterations - k) = r.config.maxIterations := by omega
  generalize hresult : d.drive (r.job tracker) (schedule.play workers) flag
    (r.config.maxIterations - k) = result
  have hdrives := h.drives tracker (schedule.play workers) hn
  rw [hresult] at hdrives
  cases hdrives with
  | stops hstop _ _ => cases hgoing.symm.trans hstop
  | unopened _ _ hpanic =>
    rw [hquiet (.beginSubTask _) nofun] at hpanic
    cases hpanic
  | unclosed _ _ hpanic =>
    rw [hquiet .endSubTask nofun] at hpanic
    cases hpanic
  | @fails _ e d' _ _ hadvance hfailure _ =>
    refine .inr ⟨e, hadvance, hfailure, fun n hn' => ⟨d', ?_⟩⟩
    rw [show n = r.config.maxIterations - k by omega]
    exact hresult
  | @goes _ d' _ _ hadvance hfailure _ => exact .inl ⟨d', hadvance, hfailure⟩

/-! ## Runs -/

theorem progressBatchSize_pos (r : Run W V M) : 0 < r.config.progressBatchSize :=
  (Config.check_eq_ok_iff.1 r.accepted_spec.1).2.2.2

theorem prepare_started [Memory.Allocator] {state : T}
    (h : r.prepare tracker state = .ok (d, workers)) :
    d.tracker = (tracker.take .beginTask state).1 ∧
      workers.map Worker.partition = Partition.divide r.nodeCount r.config.concurrency := by
  have hprepared := r.prepared_prepare tracker state
  rw [h] at hprepared
  cases hprepared with
  | started hvalues _ _ =>
    exact ⟨rfl, (r.workers_spec (r.initialValues_spec hvalues).1).1⟩

/-- The supersteps that a run begins, and what `play` notes of them. -/
def started [Memory.Allocator] {α : Type} (r : Run W V M) (tracker : Tracker T)
    (play : List Worker → Nat → NodeStore V M → T → Round V M T × α) (state : T)
    (flag : TerminationFlag) : List (Driver V M T × α) :=
  match r.prepare tracker state with
  | .ok (d, workers) => r.begun tracker (play workers) flag r.config.maxIterations d
  | .error _ => []

/-- What the tracker sees of the supersteps of a run. -/
def subTasks [Memory.Allocator] (r : Run W V M) {tracker : Tracker T}
    (x : TracedSchedule (r.job tracker)) (state : T) (flag : TerminationFlag) : List SubTask :=
  (r.started tracker x.play state flag).map fun y => ⟨y.1.activeNodes, y.2⟩

section

variable {α : Type} {play : List Worker → Nat → NodeStore V M → T → Round V M T × α} {state : T}

theorem started_of_prepare [Memory.Allocator] (h : r.prepare tracker state = .ok (d, workers)) :
    r.started tracker play state flag =
      r.begun tracker (play workers) flag r.config.maxIterations d := by
  unfold started
  rw [h]

/-- Where a run stands before a superstep that it begins, and what is noted of this superstep. -/
theorem getElem?_started [Memory.Allocator] (schedule : Schedule (r.job tracker))
    (hplay : ∀ workers, (fun t store state => (play workers t store state).1) =
      schedule.play workers) {y : Driver V M T × α}
    (h : (r.started tracker play state flag)[k]? = some y) :
    ∃ d₀ workers f, r.prepare tracker state = .ok (d₀, workers) ∧
      r.after schedule state flag k = some y.1 ∧ r.At flag k f y.1 ∧
      r.stop? flag y.1.activeNodes k = none ∧
      y.2 = (play workers k y.1.store (y.1.opened tracker)).2 := by
  unfold started at h
  split at h
  · next d₀ workers hprepare =>
    obtain ⟨hlt, -⟩ := List.getElem?_eq_some_iff.1 h
    rw [getElem?_begun (hlt.trans_le (length_begun_le ..)), hplay] at h
    obtain ⟨d, hproceed, hd⟩ := Option.bind_eq_some_iff.1 h
    have hafter : r.after schedule state flag k = some d :=
      (after_of_prepare hprepare).trans hproceed
    obtain ⟨f, hf⟩ := exists_course hafter
    split at hd
    · cases hd
    · next hgoing =>
      cases hd
      rw [hf.size_eq] at hgoing ⊢
      exact ⟨d₀, workers, f, hprepare, hafter, hf, by simpa using hgoing, rfl⟩
  · cases h

/-- A superstep is begun exactly if the run gets there and need not stop. -/
theorem lt_length_started_iff [Memory.Allocator] (schedule : Schedule (r.job tracker))
    (hplay : ∀ workers, (fun t store state => (play workers t store state).1) =
      schedule.play workers) :
    k < (r.started tracker play state flag).length ↔
      ∃ d, r.after schedule state flag k = some d ∧ r.stop? flag d.activeNodes k = none := by
  constructor
  · intro hlt
    obtain ⟨-, -, -, -, hafter, -, hgoing, -⟩ :=
      getElem?_started schedule hplay (List.getElem?_eq_getElem hlt)
    exact ⟨_, hafter, hgoing⟩
  · rintro ⟨d, hafter, hgoing⟩
    obtain ⟨f, hf⟩ := exists_course hafter
    obtain ⟨d₀, workers, hprepare⟩ := exists_prepare_of_after hafter
    rw [after_of_prepare hprepare] at hafter
    have hget : (r.begun tracker (play workers) flag r.config.maxIterations d₀)[k]? = _ :=
      getElem?_begun (stop?_eq_none_iff.1 hgoing).2.1 d₀
    rw [hplay, hafter, Option.bind_some, hf.size_eq, hgoing] at hget
    rw [started_of_prepare hprepare]
    exact (List.getElem?_eq_some_iff.1 hget).1

end

/-- What a tracker that does not panic outside of the workers sees of a run. -/
theorem tracker_under [Memory.Allocator] (hquiet : tracker.QuietOutside) (state : T) :
    (Run.under x.schedule state flag).tracker =
      tracker.replay (.beginTask :: (r.subTasks x state flag).flatMap SubTask.reports) state := by
  unfold under performBy subTasks
  cases hprepare : r.prepare tracker state with
  | error report =>
    simp only [started, hprepare]
    exact r.prepare_tracker hprepare
  | ok start =>
    obtain ⟨d, workers⟩ := start
    obtain ⟨hat, hw⟩ := at_start hprepare flag
    have htracker := hat.tracker_drive (x := x) hw hquiet (Nat.zero_add _)
    rw [(prepare_started hprepare).1] at htracker
    simp only [started, hprepare, List.flatMap_map]
    cases hdrive : d.drive (r.job tracker) (x.schedule.play workers) flag
        r.config.maxIterations with
    | mk d' ending =>
      rw [hdrive] at htracker
      cases ending <;> exact htracker

/-- A run with a result has completed all supersteps that it has begun. -/
theorem length_subTasks [Memory.Allocator] {state : T} {result : RunResult V}
    (h : (Run.under x.schedule state flag).ending = .finished result) :
    (r.subTasks x state flag).length = result.ranIterations := by
  unfold under performBy at h
  unfold subTasks started RunResult.ranIterations
  cases hprepare : r.prepare tracker state with
  | error report =>
    rw [hprepare] at h
    rw [(r.prepare_finished hprepare h).2.2.1]
    rfl
  | ok start =>
    obtain ⟨d, workers⟩ := start
    obtain ⟨hat, hw⟩ := at_start hprepare flag
    simp only [hprepare] at h
    cases hdrive : d.drive (r.job tracker) (x.schedule.play workers) flag
        r.config.maxIterations with
    | mk d' ending =>
      rw [hdrive] at h
      cases ending with
      | finished termination =>
        have hsize := hat.size_drive hw (Nat.zero_add _) hdrive
        cases h
        rw [List.length_map]
        exact (hsize.trans (Nat.zero_add _)).symm
      | failed e => cases h
      | unwound payload => cases h

/-- The calls of a superstep that a run begins, if none of them panics. -/
theorem accounted [Memory.Allocator] (hquiet : tracker.QuietOutside) {state : T}
    {y : Driver V M T × List Call} (h : (r.started tracker x.play state flag)[k]? = some y)
    (hcalls : tracker.panics (y.2.map Call.report) (y.1.opened tracker) = []) :
    ∃ f workers, r.At flag k f y.1 ∧
      workers.map Worker.partition = Partition.divide r.nodeCount r.config.concurrency ∧
      Crew.Accounted r.config.progressBatchSize r.program f workers
        (r.after x.schedule state flag (k + 1) = none) y.2 ∧
      (r.after x.schedule state flag (k + 1) = none →
        ∃ e, (Run.under x.schedule state flag).ending = .failed e) := by
  obtain ⟨d₀, workers, f, hprepare, hafter, hat, hgoing, hplay⟩ :=
    getElem?_started x.schedule (fun _ => rfl) h
  obtain ⟨hstart, hw⟩ := at_start hprepare flag
  obtain ⟨c, htraces, hfinished, hround⟩ :=
    x.traced workers k y.1.store (y.1.opened tracker)
  have haccounted : Crew.Accounted r.config.progressBatchSize r.program f workers
      c.shared.failure.isSome y.2 :=
    hplay ▸ htraces.accounted hfinished hw.team hat.course.proper hat.store
      (progressBatchSize_pos r) (hplay ▸ hcalls)
  rw [after_succ hprepare hafter]
  have hfailure : (x.schedule.play workers k y.1.store (y.1.opened tracker)).failure =
      c.shared.failure := congrArg Round.failure hround
  refine ⟨f, workers, hat, (prepare_started hprepare).2, ?_, ?_⟩
  · rcases hat.completes_or_fails hquiet hgoing with ⟨d', hadvance, hnone⟩ |
      ⟨e, hadvance, hsome, -⟩
    · rw [hfailure] at hnone
      rw [hadvance]
      rw [hnone] at haccounted
      simpa using haccounted
    · rw [hfailure] at hsome
      rw [hadvance]
      rw [hsome] at haccounted
      simpa using haccounted
  · intro hnone
    rcases hat.completes_or_fails hquiet hgoing with ⟨d', hadvance, -⟩ | ⟨e, -, -, hdrive⟩
    · cases hnone.symm.trans hadvance
    · rw [after_of_prepare hprepare] at hafter
      obtain ⟨n, hn, hsame⟩ := hstart.drive_of_proceed hw (Nat.zero_add _) hafter
      rw [Nat.zero_add] at hn
      obtain ⟨d', hd'⟩ := hdrive n hn
      refine ⟨e, ?_⟩
      unfold under performBy
      simp only [hprepare, hsame, hd']
      rfl

end Run

/-- A run whose tracker does not panic, under any schedule. The tracker sees that the run begins,
    and then every superstep that is begun: it is begun with the number of active nodes, its workers
    report, and it is ended, also when it fails. A report is about at least one node and at most a
    batch. In a superstep that is completed the reports are about all active nodes, and a worker
    makes as few of them as the active nodes of its partition allow. In a superstep that fails, and
    the run with it, they are about fewer nodes. -/
theorem progress_accounted [Memory.Allocator] (r : Run W V M) {tracker : Tracker T}
    (hquiet : ∀ report state, (tracker.take report state).2 = none)
    (x : TracedSchedule (r.job tracker)) (state : T) (flag : TerminationFlag) :
    let report := Run.under x.schedule state flag
    let subTasks := r.subTasks x state flag
    report.tracker =
      tracker.replay (.beginTask :: subTasks.flatMap SubTask.reports) state ∧
    (∀ k, k < subTasks.length ↔ ∃ d, r.after x.schedule state flag k = some d ∧
      r.stop? flag d.activeNodes k = none) ∧
    ∀ (k : Nat) (s : SubTask), subTasks[k]? = some s →
      ∃ d, r.after x.schedule state flag k = some d ∧
        s.volume = d.activeNodes ∧ s.volume = (d.store.active.current k).card r.nodeCount ∧
        (∀ call ∈ s.calls, 1 ≤ call.amount ∧ call.amount ≤ r.config.progressBatchSize) ∧
        ((∃ d', r.after x.schedule state flag (k + 1) = some d') →
          Call.total s.calls = s.volume ∧
          ∀ (j : Nat) (p : Partition),
            (Partition.divide r.nodeCount r.config.concurrency)[j]? = some p →
            (Call.ofWorker s.calls j).length =
              (p.nodes.filter fun i => (d.store.active.current k).Has i).length ⌈/⌉
                r.config.progressBatchSize) ∧
        (r.after x.schedule state flag (k + 1) = none →
          Call.total s.calls < s.volume ∧ ∃ e, report.ending = .failed e) := by
  have houtside : tracker.QuietOutside := fun report _ => hquiet report
  refine ⟨Run.tracker_under houtside state, fun k => ?_, fun k s hs => ?_⟩
  · unfold Run.subTasks
    rw [List.length_map]
    exact Run.lt_length_started_iff x.schedule fun _ => rfl
  · unfold Run.subTasks at hs
    rw [List.getElem?_map] at hs
    obtain ⟨y, hy, rfl⟩ := Option.map_eq_some_iff.1 hs
    obtain ⟨-, -, -, -, hafter, -⟩ := Run.getElem?_started x.schedule (fun _ => rfl) hy
    obtain ⟨f, workers, hat, hpartitions, haccounted, hfails⟩ :=
      Run.accounted houtside hy (Tracker.panics_of_quiet hquiet _ _)
    refine ⟨y.1, hafter, rfl, ?_, haccounted.amount, ?_, ?_⟩
    · exact hat.activeNodes.trans hat.store.card_current.symm
    · rintro ⟨d', hd'⟩
      have hdone : ¬ r.after x.schedule state flag (k + 1) = none := by
        rw [hd']
        nofun
      refine ⟨(haccounted.total_eq hdone).trans hat.activeNodes.symm, ?_⟩
      intro j p hp
      rw [← hpartitions, List.getElem?_map] at hp
      obtain ⟨w, hw, rfl⟩ := Option.map_eq_some_iff.1 hp
      rw [haccounted.length_eq hdone j w hw]
      unfold Program.share
      simp only [hat.store.has_current]
    · intro hnone
      exact ⟨(haccounted.total_lt hnone).trans_eq hat.activeNodes.symm, hfails hnone⟩

/-- Two workers on two nodes, both of which are active in superstep 0: each of them reports its node
    at the end. -/
theorem progress_accounted_twoNodes :
    (∀ report state, (Tracker.silent.take report state).2 = none) ∧
      ∃ x : TracedSchedule ((twoNodesRun .min 2 rfl).job Tracker.silent),
        x.schedule = .inOrder ((twoNodesRun .min 2 rfl).job Tracker.silent) ∧
        ∃ s, ((twoNodesRun .min 2 rfl).subTasks x () .never)[0]? = some s ∧ s.volume = 2 ∧
          Call.total s.calls = 2 ∧ ∀ j < 2, (Call.ofWorker s.calls j).length = 1 := by
  refine ⟨fun _ _ => rfl, ?_⟩
  obtain ⟨x, hx⟩ := (Schedule.inOrder ((twoNodesRun .min 2 rfl).job Tracker.silent)).exists_traced
  obtain ⟨-, hbegun, haccounted⟩ :=
    progress_accounted (twoNodesRun .min 2 rfl) (fun _ _ => rfl) x () .never
  obtain ⟨d, workers, hprepare⟩ : ∃ d workers,
      (twoNodesRun .min 2 rfl).prepare Tracker.silent () = .ok (d, workers) := ⟨_, _, rfl⟩
  have hafter : (twoNodesRun .min 2 rfl).after x.schedule () .never 0 = some d :=
    Run.after_zero hprepare
  obtain ⟨-, hstore, -, -, hactive, -⟩ := (twoNodesRun .min 2 rfl).prepare_spec hprepare
  have hactive : d.activeNodes = 2 := hactive
  have hlt := (hbegun 0).2 ⟨d, hafter, by rw [hactive]; rfl⟩
  obtain ⟨d₀, hd₀, hvolume, hcard, -, hcompleted, -⟩ :=
    haccounted 0 _ (List.getElem?_eq_getElem hlt)
  cases hafter.symm.trans hd₀
  obtain ⟨htotal, hworker⟩ :=
    hcompleted (exists_after_twoNodesRun (h := rfl) ⟨_, _, rfl⟩ x.schedule)
  refine ⟨x, hx, _, List.getElem?_eq_getElem hlt, hvolume.trans hactive,
    htotal.trans (hvolume.trans hactive), fun j hj => ?_⟩
  have hone : ∀ i < 2, ([i].filter fun i => (d.store.active.current 0).Has i).length ⌈/⌉
      (twoNodesRun .min 2 rfl).config.progressBatchSize = 1 := by
    intro i hi
    have hhas : (d.store.active.current 0).Has i := (hstore.has_current i).2 (Finset.mem_range.2 hi)
    have hself : ([i].filter fun i => (d.store.active.current 0).Has i) = [i] :=
      List.filter_eq_self.2 fun l hl => decide_eq_true (List.mem_singleton.1 hl ▸ hhas)
    rw [hself, Nat.ceilDiv_eq_add_pred_div]
    show (1 + 4096 - 1) / 4096 = 1
    rfl
  interval_cases j
  · exact (hworker 0 ⟨0, 0, 1⟩ rfl).trans (hone 0 (by decide))
  · exact (hworker 1 ⟨1, 1, 2⟩ rfl).trans (hone 1 (by decide))

end Superstep
