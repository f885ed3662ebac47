import Superstep.Proofs.Crew.LoggingInTurn
import Superstep.Proofs.Run.Progress

/-!
# Runs that share a log

Several runs are carried out one after the other with the same `LoggingProgress`, and the calls of
the workers of a superstep overlap (`LogSchedule`). The log starts every superstep from zero, so
that it does not matter what it has seen before: which runs there were, and whether they failed.

Results:
* `Run.closed_of_started`: what is logged in a superstep.
* `Run.superstep_under`: the number of supersteps that the log has counted in a run.
* `progress_logged`: what is logged in a sequence of runs.
-/

namespace Superstep

/-! ## The supersteps of a run, noted in another way -/

namespace Run

variable {W V M T α β : Type} [Message M] {r : Run W V M} {tracker : Tracker T}

/-- The supersteps that a run begins do not depend on what is noted of them. -/
theorem begun_map (g : α → β) (play : Nat → NodeStore V M → T → Round V M T × α)
    (flag : TerminationFlag) (remaining : Nat) (d : Driver V M T) :
    r.begun tracker (fun t store state => Prod.map id g (play t store state)) flag remaining d =
      (r.begun tracker play flag remaining d).map (Prod.map id g) := by
  induction remaining generalizing d with
  | zero => rfl
  | succ n ih =>
    cases hstop : r.stop? flag d.activeNodes d.supersteps.size with
    | some termination => rw [begun_of_stop hstop, begun_of_stop hstop, List.map_nil]
    | none =>
      rw [begun_of_advance hstop rfl, begun_of_advance hstop rfl, List.map_cons]
      refine congrArg _ ?_
      show (r.advance tracker (fun t store state => (play t store state).1) flag d).elim [] _ = _
      cases r.advance tracker (fun t store state => (play t store state).1) flag d with
      | none => rfl
      | some d' => exact ih d'

theorem started_map [Memory.Allocator] (g : α → β)
    (play : List Worker → Nat → NodeStore V M → T → Round V M T × α) (state : T)
    (flag : TerminationFlag) :
    r.started tracker (fun workers t store state => Prod.map id g (play workers t store state))
        state flag =
      (r.started tracker play state flag).map (Prod.map id g) := by
  unfold started
  cases r.prepare tracker state with
  | error report => rfl
  | ok start => exact begun_map g (play start.2) flag r.config.maxIterations start.1

/-- Ten times the number of nodes is a word if the set of active nodes fits in memory. -/
theorem tenfold_lt [Memory.Allocator] {active : ActiveSet} (h : r.initialActive = .ok active) :
    10 * r.nodeCount < wordLimit := by
  unfold initialActive ActiveSet.new at h
  cases hset : Bitset.new r.nodeCount with
  | error e =>
    rw [hset] at h
    cases h
  | ok s =>
    have hfits := Bitset.size_le_of_new hset
    unfold Bitset.wordCount Bitset.wordBits Memory.wordBytes Memory.addressSpace at hfits
    unfold wordLimit
    omega

end Run

/-! ## Schedules with overlapping calls -/

/-- A choice of an execution for every superstep in which the calls of the log may overlap, with
    what they have done. -/
structure LogSchedule {W V M : Type} [Message M] (job : Job W V M LoggingProgress) where
  play : List Worker → Nat → NodeStore V M → LoggingProgress → Round V M LoggingProgress × LogBook
  steps : ∀ workers t store p, ∃ x,
    Relation.ReflTransGen (LogCrew.Step job t workers) (.start store p) x ∧
      x.crew.Finished workers ∧ play workers t store p = (x.crew.round workers, x.book)

section

variable {W V M : Type} [Message M] {job : Job W V M LoggingProgress}

/-- The schedule with the calls in the order in which their nodes are added. -/
def LogSchedule.traced (x : LogSchedule job) (hlog : job.tracker = LoggingProgress.tracker) :
    TracedSchedule job where
  play workers t store p := Prod.map id LogBook.calls (x.play workers t store p)
  traced workers t store p := by
    obtain ⟨y, hsteps, hfinished, hplay⟩ := x.steps workers t store p
    rw [hplay]
    exact ⟨y.crew, LogCrew.traces_of_none hlog hsteps
      (LogCrew.none_of_finished hlog hsteps hfinished), hfinished, rfl⟩

/-- Every schedule comes about when the calls do not overlap. -/
theorem Schedule.exists_logged (schedule : Schedule job)
    (hlog : job.tracker = LoggingProgress.tracker) :
    ∃ x : LogSchedule job, (x.traced hlog).schedule = schedule := by
  have hbook : ∀ workers t store p, ∃ book x,
      Relation.ReflTransGen (LogCrew.Step job t workers) (.start store p) x ∧
        x.crew.Finished workers ∧
          (schedule.play workers t store p, book) = (x.crew.round workers, x.book) := by
    intro workers t store p
    obtain ⟨c, hsteps, hfinished, hround⟩ := schedule.interleaving workers t store p
    obtain ⟨calls, htraces⟩ := Crew.exists_traces hsteps
    obtain ⟨x, hturns, -, rfl, -⟩ := LogCrew.exists_inTurn hlog htraces
    exact ⟨x.book, x, LogCrew.steps_of_inTurn hturns, hfinished, by rw [hround]⟩
  choose book hbook using hbook
  exact ⟨⟨fun workers t store p => (schedule.play workers t store p, book workers t store p),
    hbook⟩, rfl⟩

end

/-! ## One run -/

namespace LoggingProgress

theorem quietOutside : tracker.QuietOutside := by
  intro report hreport p
  cases report with
  | logProgress n => exact absurd rfl (hreport n)
  | _ => rfl

theorem superstep_subTask (s : SubTask) (p : LoggingProgress) :
    (tracker.replay s.reports p).superstep = p.superstep + 1 := by
  rw [Tracker.replay_subTask]
  exact congrArg (· + 1) (volume_replay s.calls _).2

theorem superstep_subTasks (subTasks : List SubTask) (p : LoggingProgress) :
    (tracker.replay (subTasks.flatMap SubTask.reports) p).superstep =
      p.superstep + subTasks.length.toUInt32 := by
  induction subTasks generalizing p with
  | nil => exact (UInt32.add_zero _).symm
  | cons s subTasks ih =>
    rw [List.flatMap_cons, Tracker.replay_append, ih, superstep_subTask, List.length_cons,
      UInt32.add_assoc, UInt32.add_comm 1]
    exact congrArg (p.superstep + ·) (UInt32.ofNat_add _ _).symm

end LoggingProgress

namespace Run

variable {W V M : Type} [Message M] {r : Run W V M} {flag : TerminationFlag} {p : LoggingProgress}
  {x : LogSchedule (r.job LoggingProgress.tracker)} {k : Nat} {d : Driver V M LoggingProgress}
  {book : LogBook}

/-- The number of supersteps that the log has counted in a run with a result. -/
theorem superstep_under [Memory.Allocator] {x : TracedSchedule (r.job LoggingProgress.tracker)}
    {result : RunResult V} (h : (Run.under x.schedule p flag).ending = .finished result) :
    (Run.under x.schedule p flag).tracker.superstep = result.ranIterations.toUInt32 := by
  rw [tracker_under LoggingProgress.quietOutside, ← length_subTasks h]
  exact (LoggingProgress.superstep_subTasks _ _).trans (UInt32.zero_add _)

/-- When a superstep has been begun, the volume of the log is the number of active nodes, ten times
    which is a word. -/
theorem At.opened_spec [Memory.Allocator] {f : Frame V M} {d₀ : Driver V M LoggingProgress}
    {workers : List Worker}
    (hat : r.At flag k f d) (hprepare : r.prepare LoggingProgress.tracker p = .ok (d₀, workers)) :
    10 * r.nodeCount < wordLimit ∧
      (d.opened LoggingProgress.tracker).volume.toNat = d.activeNodes ∧
      d.activeNodes ≤ r.nodeCount := by
  have hsmall : 10 * r.nodeCount < wordLimit := by
    have hprepared := r.prepared_prepare LoggingProgress.tracker p
    rw [hprepare] at hprepared
    cases hprepared with
    | started _ hactive _ => exact tenfold_lt hactive
  have hle : d.activeNodes ≤ r.nodeCount := by
    have hsubset : f.active ⊆ Finset.range r.nodeCount :=
      fun i hi => Finset.mem_range.2 (hat.course.proper.active_lt i hi)
    have hcard := Finset.card_le_card hsubset
    rw [Finset.card_range] at hcard
    exact hat.activeNodes.trans_le hcard
  exact ⟨hsmall, toNat_toUInt64 (by omega), hle⟩

theorem play_traced (x : LogSchedule (r.job LoggingProgress.tracker)) (workers : List Worker) :
    (fun t store state => (x.play workers t store state).1) =
      (x.traced rfl).schedule.play workers :=
  rfl

/-- The log of a superstep that a run begins, when its workers are done. -/
theorem closed_of_started [Memory.Allocator]
    (h : (r.started LoggingProgress.tracker x.play p flag)[k]? = some (d, book)) :
    10 * r.nodeCount < wordLimit ∧
      LoggingProgress.tracker.panics (book.calls.map Call.report)
        (d.opened LoggingProgress.tracker) = [] ∧
      book.Closed (d.opened LoggingProgress.tracker).volume ∧
      ((∃ d', r.after (x.traced rfl).schedule p flag (k + 1) = some d') →
        book.percents.count 100 = 1) := by
  obtain ⟨d₀, workers, f, hprepare, -, hat, hgoing, hbook⟩ :=
    getElem?_started (x.traced rfl).schedule (play_traced x) h
  obtain ⟨hsmall, hvolume, hle⟩ := At.opened_spec (d := d) hat hprepare
  obtain ⟨y, hsteps, hfinished, hplay⟩ :=
    x.steps workers k d.store (d.opened LoggingProgress.tracker)
  obtain rfl : book = y.book := hbook.trans (congrArg Prod.snd hplay)
  have hclosed : y.book.Closed (d.opened LoggingProgress.tracker).volume :=
    LogCrew.closed_of_steps rfl hsteps hfinished rfl rfl (by omega)
  have hactive : d.activeNodes = f.active.card := hat.activeNodes
  have hquiet : LoggingProgress.tracker.panics (y.book.calls.map Call.report)
      (d.opened LoggingProgress.tracker) = [] :=
    have htraces := LogCrew.traces_of_none rfl hsteps
      (LogCrew.none_of_finished rfl hsteps hfinished)
    htraces.panics_of_log rfl (at_start hprepare flag).2.team hat.course.proper hat.store
      (progressBatchSize_pos r) rfl rfl (hvolume.trans hactive) (by omega)
  refine ⟨hsmall, hquiet, hclosed, fun ⟨d', hd'⟩ => ?_⟩
  have htraced : (r.started LoggingProgress.tracker (x.traced rfl).play p flag)[k]? =
      some (d, y.book.calls) := by
    unfold LogSchedule.traced
    rw [started_map, List.getElem?_map, h]
    rfl
  obtain ⟨f', workers', hat', -, haccounted, -⟩ :=
    accounted LoggingProgress.quietOutside htraced hquiet
  have htotal := haccounted.total_eq (by rw [hd']; nofun)
  have hpos : 0 < d.activeNodes := Nat.pos_of_ne_zero (stop?_eq_none_iff.1 hgoing).1
  exact hclosed.count_percents (hvolume ▸ hpos)
    (htotal.trans (hat'.activeNodes.symm.trans hvolume.symm))

/-- The last percentage of a superstep that a run begins, while calls do not overlap. -/
theorem getLast?_percents_of_started [Memory.Allocator] {d₀ : Driver V M LoggingProgress}
    {workers : List Worker}
    (h : (r.started LoggingProgress.tracker x.play p flag)[k]? = some (d, book))
    (hprepare : r.prepare LoggingProgress.tracker p = .ok (d₀, workers)) {y : LogCrew V M}
    (hsteps : Relation.ReflTransGen
      (LogCrew.StepInTurn (r.job LoggingProgress.tracker) k workers)
      (.start d.store (d.opened LoggingProgress.tracker)) y)
    (hnone : ∀ j, y.call j = none) (hpos : 0 < 10 * Call.total y.book.calls / d.activeNodes) :
    y.book.percents.getLast? =
      some (10 * (10 * Call.total y.book.calls / d.activeNodes)).toUInt64 := by
  obtain ⟨-, -, f, -, -, hat, -⟩ :=
    getElem?_started (x.traced rfl).schedule (play_traced x) h
  obtain ⟨hsmall, hvolume, hle⟩ := At.opened_spec (d := d) hat hprepare
  have hactive : d.activeNodes = f.active.card := hat.activeNodes
  rw [hactive] at hpos ⊢
  exact LogCrew.getLast?_percents_of_inTurn rfl hsteps hnone (at_start hprepare flag).2.team
    hat.course.proper hat.store (progressBatchSize_pos r) rfl rfl (hvolume.trans hactive)
    (by omega) hpos

end Run

/-! ## Sequences of runs -/

/-- A run with its schedule. -/
structure LoggedRun where
  {W V M : Type}
  [message : Message M]
  run : Run W V M
  schedule : LogSchedule (run.job LoggingProgress.tracker)
  flag : TerminationFlag

attribute [instance] LoggedRun.message

namespace LoggedRun

/-- What becomes of a run, with a log in the state `p`. -/
def report [Memory.Allocator] (x : LoggedRun) (p : LoggingProgress) :
    RunReport x.V LoggingProgress :=
  Run.under (x.schedule.traced rfl).schedule p x.flag

/-- The driver of a run after `k` supersteps, if it gets there. -/
def after [Memory.Allocator] (x : LoggedRun) (p : LoggingProgress) (k : Nat) :
    Option (Driver x.V x.M LoggingProgress) :=
  x.run.after (x.schedule.traced rfl).schedule p x.flag k

/-- The supersteps that a run begins, and what the calls of the log have done in each of them. -/
def supersteps [Memory.Allocator] (x : LoggedRun) (p : LoggingProgress) :
    List (Driver x.V x.M LoggingProgress × LogBook) :=
  x.run.started LoggingProgress.tracker x.schedule.play p x.flag

/-- Where the workers of superstep `k` of a run may get when their calls do not overlap. -/
def InTurn [Memory.Allocator] (x : LoggedRun) (p : LoggingProgress) (k : Nat)
    (d : Driver x.V x.M LoggingProgress) (y : LogCrew x.V x.M) : Prop :=
  ∃ d₀ workers, x.run.prepare LoggingProgress.tracker p = .ok (d₀, workers) ∧
    Relation.ReflTransGen (LogCrew.StepInTurn (x.run.job LoggingProgress.tracker) k workers)
      (.start d.store (d.opened LoggingProgress.tracker)) y

/-- The log after some runs, one after the other. -/
def through [Memory.Allocator] (runs : List LoggedRun) (p : LoggingProgress) : LoggingProgress :=
  runs.foldl (fun p x => (x.report p).tracker) p

end LoggedRun

/-- A run whose log has seen some other runs before, whatever has become of them. In every superstep
    that it begins no call panics, the percentages are multiples of ten up to a hundred, each of
    them is written at most once, and they grow in the order in which their tenths have won; in a
    superstep that is completed a hundred is written once. While calls do not overlap, the last
    percentage after `d` of `v` nodes is that of the last tenth of `v` that `d` has reached, if it
    has reached one. When the run has a result, the log has counted its supersteps. -/
theorem progress_logged [Memory.Allocator] (earlier : List LoggedRun) (p₀ : LoggingProgress)
    (x : LoggedRun) :
    let p := LoggedRun.through earlier p₀
    let report := x.report p
    (∀ k, k < (x.supersteps p).length ↔
      ∃ d, x.after p k = some d ∧ x.run.stop? x.flag d.activeNodes k = none) ∧
    (∀ (k : Nat) (d : Driver x.V x.M LoggingProgress) (book : LogBook),
      (x.supersteps p)[k]? = some (d, book) →
        x.after p k = some d ∧ 10 * x.run.nodeCount < wordLimit ∧
        LoggingProgress.tracker.panics (book.calls.map Call.report)
          (d.opened LoggingProgress.tracker) = [] ∧
        (∀ percent ∈ book.percents, ∃ j, 1 ≤ j ∧ j ≤ 10 ∧ percent.toNat = 10 * j) ∧
        book.percents.Nodup ∧
        book.percents.Perm book.raised ∧ book.raised.Pairwise (· < ·) ∧
        ((∃ d', x.after p (k + 1) = some d') → book.percents.count 100 = 1) ∧
        ∀ y, x.InTurn p k d y → (∀ j, y.call j = none) →
          0 < 10 * Call.total y.book.calls / d.activeNodes →
          y.book.percents.getLast? =
            some (10 * (10 * Call.total y.book.calls / d.activeNodes)).toUInt64) ∧
    ∀ result, report.ending = .finished result →
      report.tracker.superstep = result.ranIterations.toUInt32 ∧
      (x.run.config.maxIterations < halfWordLimit →
        report.tracker.superstep.toNat = result.ranIterations) := by
  intro p report
  refine ⟨fun k => ?_, fun k d book hbegun => ?_, fun result hresult => ?_⟩
  · exact Run.lt_length_started_iff (x.schedule.traced rfl).schedule
      (Run.play_traced x.schedule)
  · obtain ⟨-, -, -, -, hafter, -⟩ :=
      Run.getElem?_started (x.schedule.traced rfl).schedule (Run.play_traced x.schedule) hbegun
    obtain ⟨hsmall, hquiet, hclosed, hcount⟩ := Run.closed_of_started hbegun
    refine ⟨hafter, hsmall, hquiet, fun _ => hclosed.exists_of_mem_percents, hclosed.nodup_percents,
      hclosed.percents_perm, hclosed.raised_increasing, hcount, ?_⟩
    rintro y ⟨d₀, workers, hprepare, hsteps⟩ hnone hpos
    exact Run.getLast?_percents_of_started hbegun hprepare hsteps hnone hpos
  · have hsuperstep : report.tracker.superstep = result.ranIterations.toUInt32 :=
      Run.superstep_under hresult
    obtain ⟨f, hcourse, -⟩ := Run.finished_spec hresult
    refine ⟨hsuperstep, fun hlimit => ?_⟩
    rw [hsuperstep, Nat.toUInt32, UInt32.toNat_ofNat']
    exact Nat.mod_eq_of_lt (hcourse.le_maxIterations.trans_lt hlimit)

/-- Two runs on two nodes, both of which are active in superstep 0: in this superstep of the second
    run the log, which has seen the first one, writes a hundred once. -/
theorem progress_logged_twoNodes :
    ∃ x : LoggedRun, x.run.nodeCount = 2 ∧ ∃ d book,
      (x.supersteps (LoggedRun.through [x] (.new "components")))[0]? = some (d, book) ∧
        d.activeNodes = 2 ∧ book.percents.count 100 = 1 := by
  obtain ⟨schedule, hinOrder⟩ := Schedule.exists_logged
    (.inOrder ((twoNodesRun .min 2 rfl).job LoggingProgress.tracker)) rfl
  let x : LoggedRun := ⟨twoNodesRun .min 2 rfl, schedule, .never⟩
  refine ⟨x, rfl, ?_⟩
  obtain ⟨hbegun, hlogged, -⟩ := progress_logged [x] (.new "components") x
  have hnext : ∃ d', x.after (LoggedRun.through [x] (.new "components")) 1 = some d' := by
    refine Option.isSome_iff_exists.1 ?_
    show ((twoNodesRun .min 2 rfl).after (schedule.traced rfl).schedule
      (Run.under (schedule.traced rfl).schedule (.new "components") .never).tracker .never 1).isSome
    rw [hinOrder]
    decide +kernel
  generalize LoggedRun.through [x] (.new "components") = p at hbegun hlogged hnext ⊢
  have hprepare : ∃ d workers,
      (twoNodesRun .min 2 rfl).prepare LoggingProgress.tracker p = .ok (d, workers) := ⟨_, _, rfl⟩
  obtain ⟨d, workers, hd⟩ := hprepare
  have hactive : d.activeNodes = 2 := ((twoNodesRun .min 2 rfl).prepare_spec hd).2.2.2.2.1
  have hafter : x.after p 0 = some d := Run.after_zero hd
  have hlt := (hbegun 0).2 ⟨d, hafter, by rw [hactive]; rfl⟩
  obtain ⟨hsame, -, -, -, -, -, -, hcount, -⟩ :=
    hlogged 0 _ _ (List.getElem?_eq_getElem hlt)
  refine ⟨_, _, List.getElem?_eq_getElem hlt, ?_, hcount hnext⟩
  cases hafter.symm.trans hsame
  exact hactive

end Superstep
