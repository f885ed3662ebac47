import Superstep.Algorithm.Components
import Superstep.Proofs.Run.Start

/-!
# The course of a run

`Run.after` is where the driver of a run stands after a number of supersteps, and `Run.Course` says
which frames the machine of the run can have reached by then, and with which counts. The machine
leaves open in which order messages arrive, unless there is one worker.

Results:
* `exists_course`: after every number of supersteps, and under every schedule, the storage of a run
  holds a frame of its course.
* `finished_spec`: a result is that of the first frame before which the run has to stop.
* `failed_spec`: a failure has a cause in the last frame that the run has reached.
* `exists_advance`: a run that need not stop goes on, if no step fails and the tracker does not
  panic.
* `finished_agree`: two runs whose frames have the same values and active nodes end alike.
-/

namespace Superstep

/-- The counts of a superstep of the machine. -/
def Program.stats {W V M : Type} [Message M] (p : Program W V M) (f : Frame V M) (t : Nat) :
    SuperstepStats where
  superstep := t
  activeNodes := f.active.card
  messagesSent := (p.traffic f t).length
  messagesCombined := (p.traffic f t).length - p.reduction.left (p.traffic f t)
  nextActiveNodes := (p.next f t).active.card

namespace Run

variable {W V M T : Type} [Message M]

/-- Why a run stops after `k` supersteps, if it stops: because no node is active, because it has
    reached its largest number of supersteps, or because it is cancelled. -/
def stop? (r : Run W V M) (flag : TerminationFlag) (active k : Nat) : Option Termination :=
  if active = 0 then some .converged
  else if r.config.maxIterations ≤ k then some .maxIterationsReached
  else if flag.isCancelled k then some .cancelled
  else none

/-- The next superstep of the driver, if the run goes on and does not fail. -/
def advance (r : Run W V M) (tracker : Tracker T) (play : Nat → NodeStore V M → T → Round V M T)
    (flag : TerminationFlag) (d : Driver V M T) : Option (Driver V M T) :=
  if (r.stop? flag d.activeNodes d.supersteps.size).isSome then none
  else
    match { d with polls := d.polls + 1 }.superstep (r.job tracker) play with
    | (d, none) => some d
    | (_, some _) => none

/-- The driver after `k` more supersteps. -/
def proceed (r : Run W V M) (tracker : Tracker T) (play : Nat → NodeStore V M → T → Round V M T)
    (flag : TerminationFlag) : Nat → Driver V M T → Option (Driver V M T)
  | 0, d => some d
  | k + 1, d => (r.advance tracker play flag d).bind (r.proceed tracker play flag k)

/-- The driver after `k` supersteps of a run under a schedule, if the run gets there. -/
def after [Memory.Allocator] (r : Run W V M) {tracker : Tracker T}
    (schedule : Schedule (r.job tracker)) (state : T)
    (flag : TerminationFlag) (k : Nat) : Option (Driver V M T) :=
  match r.prepare tracker state with
  | .ok (d, workers) => r.proceed tracker (schedule.play workers) flag k d
  | .error _ => none

/-- The frames that the machine of a run can have reached after `k` supersteps without a failure,
    with the counts of these. -/
inductive Course (r : Run W V M) (flag : TerminationFlag) :
    Nat → Frame V M → List SuperstepStats → Prop
  | start : Course r flag 0 r.initialFrame []
  | superstep {k : Nat} {f : Frame V M} {stats : List SuperstepStats}
      {arrived : List (NodeId × M)} :
    Course r flag k f stats → r.stop? flag f.active.card k = none → r.program.Flawless f k →
      arrived.Perm (r.program.traffic f k) →
      (r.config.concurrency = 1 → arrived = r.program.traffic f k) →
      Course r flag (k + 1) (r.program.after f k arrived) (stats ++ [r.program.stats f k])

end Run

/-- The counts of a superstep do not depend on the order in which the messages have arrived. -/
theorem Round.Completes.stats_eq {W V M T : Type} [Message M] {p : Program W V M} {t : Nat}
    {f : Frame V M} {arrived : List (NodeId × M)} {round : Round V M T}
    (h : round.Completes p t f arrived) :
    (⟨t, f.active.card, round.tally.sent, round.tally.combined, round.tally.activated⟩ :
      SuperstepStats) = p.stats f t := by
  have hcombined : round.tally.combined =
      (p.traffic f t).length - p.reduction.left (p.traffic f t) := by
    rw [← h.perm.length_eq, ← p.reduction.left_perm h.perm]
    exact Nat.eq_sub_of_add_eq h.combined
  rw [h.sent, h.perm.length_eq, hcombined, h.activated, Program.active_after_perm h.perm]
  rfl

namespace Run.Course

variable {W V M T : Type} [Message M] {r : Run W V M} {flag : TerminationFlag} {k : Nat}
  {f : Frame V M} {stats : List SuperstepStats}

theorem length_eq (h : r.Course flag k f stats) : stats.length = k := by
  induction h with
  | start => rfl
  | superstep _ _ _ _ _ ih => rw [List.length_append, ih]; rfl

theorem proper (h : r.Course flag k f stats) : f.Proper r.program := by
  induction h with
  | start => exact r.proper_initialFrame
  | superstep _ _ hflawless hperm _ ih =>
    exact ih.after fun l hl => Program.traffic_lt hflawless l (hperm.mem_iff.1 hl)

/-- The course is that of the machine as far as the frames of the machine are followed by one
    another, in whatever order the messages can arrive. -/
theorem eq_frame_of_after_eq (h : r.Course flag k f stats)
    (hafter : ∀ j < k, ∀ arrived,
      arrived.Perm (r.program.traffic (r.program.frame r.initialFrame j) j) →
      (r.config.concurrency = 1 →
        arrived = r.program.traffic (r.program.frame r.initialFrame j) j) →
      r.program.after (r.program.frame r.initialFrame j) j arrived =
        r.program.frame r.initialFrame (j + 1)) :
    f = r.program.frame r.initialFrame k ∧
      stats = (List.range k).map fun t => r.program.stats (r.program.frame r.initialFrame t) t := by
  induction h with
  | start => exact ⟨rfl, rfl⟩
  | @superstep k f stats arrived _ _ _ hperm halone ih =>
    obtain ⟨rfl, rfl⟩ := ih fun j hj => hafter j (Nat.lt_succ_of_lt hj)
    rw [hafter k (Nat.lt_succ_self k) arrived hperm halone, List.range_succ, List.map_append]
    exact ⟨rfl, rfl⟩

theorem eq_frame (h : r.Course flag k f stats) (hone : r.config.concurrency = 1) :
    f = r.program.frame r.initialFrame k ∧
      stats = (List.range k).map fun t => r.program.stats (r.program.frame r.initialFrame t) t := by
  refine h.eq_frame_of_after_eq ?_
  intro j _ arrived _ halone
  rw [halone hone]
  rfl

theorem going (h : r.Course flag k f stats) {j : Nat} (hj : j < k) :
    ∃ f' stats', r.Course flag j f' stats' ∧ r.stop? flag f'.active.card j = none ∧
      r.program.Flawless f' j := by
  induction h with
  | start => exact absurd hj (Nat.not_lt_zero j)
  | @superstep k f stats arrived hcourse hgoing hflawless _ _ ih =>
    rcases Nat.lt_succ_iff_lt_or_eq.1 hj with hlt | rfl
    · exact ih hlt
    · exact ⟨f, stats, hcourse, hgoing, hflawless⟩

theorem going_of_le (h : r.Course flag k f stats) (hgoing : r.stop? flag f.active.card k = none)
    {j : Nat} (hj : j ≤ k) :
    ∃ f' stats', r.Course flag j f' stats' ∧ r.stop? flag f'.active.card j = none := by
  rcases Nat.lt_or_eq_of_le hj with hlt | rfl
  · obtain ⟨f', stats', h', hgoing', -⟩ := h.going hlt
    exact ⟨f', stats', h', hgoing'⟩
  · exact ⟨f, stats, h, hgoing⟩

variable {r' : Run W V M} {flag' : TerminationFlag} {f' : Frame V M} {stats' : List SuperstepStats}

/-- What relates the frames of two runs superstep by superstep relates their courses. -/
theorem simulation (Rel : Nat → Frame V M → Frame V M → Prop)
    (Counts : Nat → SuperstepStats → SuperstepStats → Prop)
    (hstart : Rel 0 r.initialFrame r'.initialFrame)
    (hstep : ∀ {k f f' arrived arrived'}, Rel k f f' → f.Proper r.program →
      arrived.Perm (r.program.traffic f k) → arrived'.Perm (r'.program.traffic f' k) →
        Rel (k + 1) (r.program.after f k arrived) (r'.program.after f' k arrived'))
    (hcounts : ∀ {k f f'}, Rel k f f' → f.Proper r.program →
      Counts k (r.program.stats f k) (r'.program.stats f' k))
    (h : r.Course flag k f stats) (h' : r'.Course flag' k f' stats') :
    Rel k f f' ∧
      ∀ j < k, ∃ a b, stats[j]? = some a ∧ stats'[j]? = some b ∧ Counts j a b := by
  induction h generalizing f' stats' with
  | start =>
    cases h'
    exact ⟨hstart, fun j hj => absurd hj (Nat.not_lt_zero j)⟩
  | @superstep k f stats arrived hcourse _ _ hperm _ ih =>
    cases h' with
    | @superstep _ g stats' arrived' hcourse' _ _ hperm' _ =>
      obtain ⟨hrel, hstats⟩ := ih hcourse'
      refine ⟨hstep hrel hcourse.proper hperm hperm', ?_⟩
      intro j hj
      have hlength : stats.length = k := hcourse.length_eq
      have hlength' : stats'.length = k := hcourse'.length_eq
      rcases Nat.lt_succ_iff_lt_or_eq.1 hj with hlt | rfl
      · rw [List.getElem?_append_left (by omega), List.getElem?_append_left (by omega)]
        exact hstats j hlt
      · refine ⟨_, _, ?_, ?_, hcounts hrel hcourse.proper⟩
        · rw [← hlength, List.getElem?_concat_length]
        · rw [← hlength', List.getElem?_concat_length, hlength']

/-- Two runs with the same numbers of active nodes stop at the same time, for the same reason. -/
theorem eq_of_stop? (hlimit : r'.config.maxIterations = r.config.maxIterations)
    (hactive : ∀ {k f f' stats stats'}, r.Course flag k f stats → r'.Course flag k f' stats' →
      f'.active.card = f.active.card)
    {k' : Nat} (h : r.Course flag k f stats) (h' : r'.Course flag k' f' stats')
    {termination termination' : Termination}
    (hstop : r.stop? flag f.active.card k = some termination)
    (hstop' : r'.stop? flag f'.active.card k' = some termination') :
    k' = k ∧ termination' = termination := by
  have hsame : ∀ active j, r'.stop? flag active j = r.stop? flag active j := by
    intro active j
    unfold stop?
    rw [hlimit]
  rcases Nat.lt_trichotomy k' k with hlt | rfl | hlt
  · obtain ⟨g, statsg, hg, hgoing, -⟩ := h.going hlt
    rw [hsame, hactive hg h', hgoing] at hstop'
    cases hstop'
  · rw [hsame, hactive h h', hstop] at hstop'
    exact ⟨rfl, (Option.some.inj hstop').symm⟩
  · obtain ⟨g, statsg, hg, hgoing, -⟩ := h'.going hlt
    rw [hsame, hactive h hg, hstop] at hgoing
    cases hgoing

end Run.Course

/-! ## Supersteps of the driver -/

namespace Driver

variable {W V M T : Type} {job : Job W V M T} {play : Nat → NodeStore V M → T → Round V M T}
  {d d' : Driver V M T}

/-- The tracker when the next superstep has been begun. -/
def opened (tracker : Tracker T) (d : Driver V M T) : T :=
  (tracker.take (.beginSubTask d.activeNodes) d.tracker).1

/-- What a superstep of the driver has done when it has not failed. -/
theorem superstep_spec (h : d.superstep job play = (d', none)) {round : Round V M T}
    (hround : play d.supersteps.size d.store (d.opened job.tracker) = round) :
    round.failure = none ∧ d'.store = round.store ∧ d'.activeNodes = round.tally.activated ∧
      d'.polls = d.polls ∧
      d'.supersteps = d.supersteps.push ⟨d.supersteps.size, d.activeNodes, round.tally.sent,
        round.tally.combined, round.tally.activated⟩ := by
  subst hround
  unfold superstep report enter at h
  simp only at h
  split at h
  · cases h
  · next hbegin =>
    split at h
    · cases h
    · next hend =>
      obtain ⟨rfl, -⟩ := Prod.mk.inj hbegin
      obtain ⟨rfl, -⟩ := Prod.mk.inj hend
      split at h
      · cases h
      · next hfailure =>
        cases h
        exact ⟨hfailure, rfl, rfl, rfl, rfl⟩

/-- A superstep ends a run by its own failure, or because the tracker panics outside of the
    workers. -/
theorem superstep_ended {ending : DriverEnding} (h : d.superstep job play = (d', some ending)) :
    (∃ report state payload, (∀ n, report ≠ .logProgress n) ∧ ending = .unwound payload ∧
        (job.tracker.take report state).2 = some payload) ∨
      ∃ e state, ending = .failed e ∧
        (play d.supersteps.size d.store state).failure = some e := by
  unfold superstep report enter at h
  simp only at h
  split at h
  · next hbegin =>
    cases h
    exact .inl ⟨.beginSubTask d.activeNodes, _, _, nofun, rfl, (Prod.mk.inj hbegin).2⟩
  · next hbegin =>
    obtain ⟨rfl, -⟩ := Prod.mk.inj hbegin
    split at h
    · next hend =>
      cases h
      exact .inl ⟨.endSubTask, _, _, nofun, rfl, (Prod.mk.inj hend).2⟩
    · split at h
      · next hfailure =>
        cases h
        exact .inr ⟨_, _, rfl, hfailure⟩
      · cases h

/-- A superstep without a failure during which the tracker does not panic is carried out. -/
theorem exists_superstep (htracker : ∀ report state, (job.tracker.take report state).2 = none)
    (hplay : ∀ tracker, (play d.supersteps.size d.store tracker).failure = none) :
    ∃ d', d.superstep job play = (d', none) := by
  unfold superstep report enter
  simp only
  split
  · next hbegin =>
    obtain ⟨-, hpanic⟩ := Prod.mk.inj hbegin
    rw [htracker] at hpanic
    cases hpanic
  · next hbegin =>
    obtain ⟨rfl, -⟩ := Prod.mk.inj hbegin
    split
    · next hend =>
      obtain ⟨-, hpanic⟩ := Prod.mk.inj hend
      rw [htracker] at hpanic
      cases hpanic
    · split
      · next hfailure =>
        simp only [hplay] at hfailure
        cases hfailure
      · exact ⟨_, rfl⟩

end Driver

/-! ## Runs -/

namespace Run

variable {W V M T : Type} [Message M] {r : Run W V M} {tracker : Tracker T}

/-- The driver stands after `k` supersteps, in frame `f` of the course of the run. -/
structure At (r : Run W V M) (flag : TerminationFlag) (k : Nat) (f : Frame V M) (d : Driver V M T) :
    Prop where
  course : r.Course flag k f d.supersteps.toList
  store : d.store.Holds r.program k f
  activeNodes : d.activeNodes = f.active.card
  polls : d.polls = k

theorem At.size_eq {flag : TerminationFlag} {k : Nat} {f : Frame V M} {d : Driver V M T}
    (h : r.At flag k f d) : d.supersteps.size = k := by
  rw [← Array.length_toList]
  exact h.course.length_eq

/-- What the workers of a run are. -/
structure Staffed (r : Run W V M) (workers : List Worker) : Prop where
  team : Team r.program workers
  length_eq : workers.length = min (max r.config.concurrency 1) r.nodeCount

variable {workers : List Worker} {schedule : Schedule (r.job tracker)} {flag : TerminationFlag}
  {k : Nat} {f : Frame V M} {d d' : Driver V M T}

theorem advance_of_stop {play : Nat → NodeStore V M → T → Round V M T} {termination : Termination}
    (h : r.stop? flag d.activeNodes d.supersteps.size = some termination) :
    r.advance tracker play flag d = none := by
  rw [Run.advance, h]
  rfl

theorem advance_of_superstep {play : Nat → NodeStore V M → T → Round V M T}
    {ending : Option DriverEnding} (hgoing : r.stop? flag d.activeNodes d.supersteps.size = none)
    (h : { d with polls := d.polls + 1 }.superstep (r.job tracker) play = (d', ending)) :
    r.advance tracker play flag d = ending.elim (some d') fun _ => none := by
  rw [Run.advance, hgoing, h]
  cases ending <;> rfl

/-- When a run goes on behind a superstep, this superstep has not failed, and the run stands in the
    frame that follows with the messages in the order in which they have arrived. -/
theorem At.advance_of_completes (h : r.At flag k f d) (hw : r.Staffed workers)
    (hadvance : r.advance tracker (schedule.play workers) flag d = some d') {round : Round V M T}
    (hround : schedule.play workers k d.store (d.opened tracker) = round) :
    round.failure = none ∧ ∀ arrived, round.Completes r.program k f arrived →
      (workers.length = 1 → arrived = r.program.traffic f k) →
        d'.supersteps = d.supersteps.push (r.program.stats f k) ∧
          r.At flag (k + 1) (r.program.after f k arrived) d' := by
  unfold Run.advance at hadvance
  split at hadvance
  · cases hadvance
  · next hstop =>
    split at hadvance
    · next e hsuperstep =>
      cases hadvance
      rw [← h.size_eq] at hround
      obtain ⟨hfailure, hstore, hactive, hpolls, hpush⟩ := Driver.superstep_spec hsuperstep hround
      simp only [h.size_eq] at hpush
      refine ⟨hfailure, fun arrived hcompletes halone => ?_⟩
      have hgoing : r.stop? flag f.active.card k = none := by
        rw [h.activeNodes, h.size_eq] at hstop
        simpa using hstop
      have hone : r.config.concurrency = 1 → arrived = r.program.traffic f k := by
        intro hconcurrency
        refine halone ?_
        have hsome : f.active.card ≠ 0 := fun hzero => by
          rw [stop?, if_pos hzero] at hgoing
          cases hgoing
        obtain ⟨i, hi⟩ := Finset.card_pos.1 (Nat.pos_of_ne_zero hsome)
        have hlt : i < r.nodeCount := h.course.proper.active_lt i hi
        rw [hw.length_eq, hconcurrency]
        omega
      have hstats : d'.supersteps = d.supersteps.push (r.program.stats f k) := by
        rw [hpush, h.activeNodes]
        exact congrArg d.supersteps.push hcompletes.stats_eq
      refine ⟨hstats, ?_, ?_, ?_, ?_⟩
      · rw [hstats, Array.toList_push]
        exact .superstep h.course hgoing hcompletes.flawless hcompletes.perm hone
      · rw [hstore]
        exact hcompletes.store
      · rw [hactive]
        exact hcompletes.activated
      · rw [hpolls, h.polls]
    · cases hadvance

/-- What one superstep of a run has done: the machine has carried out its superstep, with the
    messages arriving in some order, and the counts are those of the machine. -/
theorem At.advance_spec (h : r.At flag k f d) (hw : r.Staffed workers)
    (hadvance : r.advance tracker (schedule.play workers) flag d = some d') :
    ∃ arrived, r.program.Flawless f k ∧ arrived.Perm (r.program.traffic f k) ∧
      d'.supersteps = d.supersteps.push (r.program.stats f k) ∧
      r.At flag (k + 1) (r.program.after f k arrived) d' := by
  obtain ⟨hfailure, hnext⟩ := h.advance_of_completes hw hadvance rfl
  obtain ⟨arrived, hcompletes, halone⟩ :=
    (schedule.interleaving workers k d.store (d.opened tracker)).completes hw.team h.course.proper
      h.store hfailure
  obtain ⟨hstats, hat⟩ := hnext arrived hcompletes halone
  exact ⟨arrived, hcompletes.flawless, hcompletes.perm, hstats, hat⟩

/-- One superstep of a run is one superstep of its course. -/
theorem At.advance (h : r.At flag k f d) (hw : r.Staffed workers)
    (hadvance : r.advance tracker (schedule.play workers) flag d = some d') :
    ∃ f', r.At flag (k + 1) f' d' := by
  obtain ⟨arrived, -, -, -, hat⟩ := h.advance_spec hw hadvance
  exact ⟨_, hat⟩

/-- A run goes on if it need not stop, no step fails and the tracker does not panic. -/
theorem At.exists_advance (h : r.At flag k f d) (hw : r.Staffed workers)
    (schedule : Schedule (r.job tracker)) (hgoing : r.stop? flag f.active.card k = none)
    (hflawless : r.program.Flawless f k)
    (htracker : ∀ report state, (tracker.take report state).2 = none) :
    ∃ d', r.advance tracker (schedule.play workers) flag d = some d' := by
  have hplay : ∀ state, (schedule.play workers d.supersteps.size d.store state).failure = none := by
    intro state
    rw [h.size_eq]
    exact (schedule.interleaving workers k d.store state).failure_eq_none hw.team h.store hflawless
      htracker
  obtain ⟨d', hd'⟩ : ∃ d', { d with polls := d.polls + 1 }.superstep (r.job tracker)
      (schedule.play workers) = (d', none) :=
    Driver.exists_superstep (d := { d with polls := d.polls + 1 }) htracker hplay
  have hstop : r.stop? flag d.activeNodes d.supersteps.size = none := by
    rw [h.activeNodes, h.size_eq, hgoing]
  exact ⟨d', advance_of_superstep hstop hd'⟩

theorem At.proceed (h : r.At flag k f d) (hw : r.Staffed workers) {n : Nat}
    (hproceed : r.proceed tracker (schedule.play workers) flag n d = some d') :
    ∃ f', r.At flag (k + n) f' d' := by
  induction n generalizing k f d with
  | zero =>
    cases hproceed
    exact ⟨f, h⟩
  | succ n ih =>
    obtain ⟨d₁, hfirst, hrest⟩ := Option.bind_eq_some_iff.1 hproceed
    obtain ⟨f₁, h₁⟩ := h.advance hw hfirst
    obtain ⟨f', h'⟩ := ih h₁ hrest
    exact ⟨f', by rwa [Nat.add_right_comm, Nat.add_assoc] at h'⟩

theorem at_start [Memory.Allocator] {state : T} (h : r.prepare tracker state = .ok (d, workers))
    (flag : TerminationFlag) : r.At flag 0 r.initialFrame d ∧ r.Staffed workers := by
  obtain ⟨hteam, hstore, hlength, hsupersteps, hactive, hpolls⟩ := r.prepare_spec h
  refine ⟨⟨?_, hstore, hactive, hpolls⟩, hteam, hlength⟩
  rw [hsupersteps]
  exact .start

theorem proceed_succ (r : Run W V M) (play : Nat → NodeStore V M → T → Round V M T) (n : Nat)
    (d : Driver V M T) : r.proceed tracker play flag (n + 1) d =
      (r.proceed tracker play flag n d).bind (r.advance tracker play flag) := by
  induction n generalizing d with
  | zero =>
    rw [proceed]
    cases h : r.advance tracker play flag d <;> simp [proceed, h]
  | succ n ih =>
    rw [proceed, proceed, Option.bind_assoc]
    congr 1
    exact funext ih

theorem exists_prepare_of_after [Memory.Allocator] {state : T}
    (h : r.after schedule state flag k = some d) :
    ∃ d₀ workers, r.prepare tracker state = .ok (d₀, workers) := by
  unfold after at h
  split at h
  · next d₀ workers hprepare => exact ⟨d₀, workers, hprepare⟩
  · cases h

section

variable [Memory.Allocator] {state : T} {d₀ : Driver V M T}
  (hprepare : r.prepare tracker state = .ok (d₀, workers))
include hprepare

theorem after_of_prepare :
    r.after schedule state flag k = r.proceed tracker (schedule.play workers) flag k d₀ := by
  unfold after
  rw [hprepare]

theorem after_zero : r.after schedule state flag 0 = some d₀ := after_of_prepare hprepare

theorem after_succ (h : r.after schedule state flag k = some d) :
    r.after schedule state flag (k + 1) = r.advance tracker (schedule.play workers) flag d := by
  rw [after_of_prepare hprepare] at h ⊢
  rw [proceed_succ, h, Option.bind_some]

end

/-- After every number of supersteps, and under every schedule, the storage of a run holds a frame
    of its course. -/
theorem exists_course [Memory.Allocator] {state : T} (h : r.after schedule state flag k = some d) :
    ∃ f, r.At flag k f d := by
  obtain ⟨d₀, workers, hprepare⟩ := exists_prepare_of_after h
  obtain ⟨hat, hw⟩ := at_start hprepare flag
  rw [after_of_prepare hprepare] at h
  obtain ⟨f, hf⟩ := hat.proceed hw h
  exact ⟨f, by rwa [Nat.zero_add] at hf⟩

/-- The driver before and after a superstep of a run under a schedule. -/
theorem after_succ_spec [Memory.Allocator] {state : T} (h : r.after schedule state flag k = some d)
    (h' : r.after schedule state flag (k + 1) = some d') :
    ∃ f arrived, r.At flag k f d ∧ r.program.Flawless f k ∧
      arrived.Perm (r.program.traffic f k) ∧
      d'.supersteps = d.supersteps.push (r.program.stats f k) ∧
      r.At flag (k + 1) (r.program.after f k arrived) d' := by
  obtain ⟨d₀, workers, hprepare⟩ := exists_prepare_of_after h
  obtain ⟨-, hw⟩ := at_start hprepare flag
  obtain ⟨f, hf⟩ := exists_course h
  rw [after_succ hprepare h] at h'
  obtain ⟨arrived, hrest⟩ := hf.advance_spec hw h'
  exact ⟨f, arrived, hf, hrest⟩

/-- A run goes on from superstep to superstep until it has to stop, if no step fails and the tracker
    does not panic. -/
theorem exists_after_succ [Memory.Allocator] {state : T}
    (h : r.after schedule state flag k = some d) (hgoing : r.stop? flag d.activeNodes k = none)
    (hflawless : ∀ f stats, r.Course flag k f stats → r.program.Flawless f k)
    (htracker : ∀ report state, (tracker.take report state).2 = none) :
    ∃ d', r.after schedule state flag (k + 1) = some d' := by
  obtain ⟨d₀, workers, hprepare⟩ := exists_prepare_of_after h
  obtain ⟨-, hw⟩ := at_start hprepare flag
  obtain ⟨f, hf⟩ := exists_course h
  rw [hf.activeNodes] at hgoing
  rw [after_succ hprepare h]
  exact hf.exists_advance hw schedule hgoing (hflawless f _ hf.course) htracker

/-- How a driver ends that stands at `d` after `k` supersteps, in frame `f`: it has to stop, the
    superstep fails, or the tracker panics. -/
inductive At.Ends (r : Run W V M) (tracker : Tracker T)
    (play : Nat → NodeStore V M → T → Round V M T) (flag : TerminationFlag) (k : Nat)
    (f : Frame V M) (d d' : Driver V M T) : DriverEnding → Prop
  | finished {termination : Termination} :
    r.stop? flag f.active.card k = some termination → d'.store = d.store →
      d'.supersteps = d.supersteps → Ends r tracker play flag k f d d' (.finished termination)
  | failed {e : RunError} {state : T} :
    r.stop? flag f.active.card k = none → (play k d.store state).failure = some e →
      Ends r tracker play flag k f d d' (.failed e)
  | unwound {report : Report} {state : T} {payload : PanicPayload} :
    (∀ n, report ≠ .logProgress n) → (tracker.take report state).2 = some payload →
      Ends r tracker play flag k f d d' (.unwound payload)

/-- The driver goes from superstep to superstep until it ends. -/
theorem At.drive (h : r.At flag k f d) (hw : r.Staffed workers) {remaining : Nat}
    (hremaining : k + remaining = r.config.maxIterations) {ending : DriverEnding}
    (hdrive : d.drive (r.job tracker) (schedule.play workers) flag remaining = (d', ending)) :
    ∃ n f' d₁, r.At flag (k + n) f' d₁ ∧
      At.Ends r tracker (schedule.play workers) flag (k + n) f' d₁ d' ending := by
  have hhere : ∀ {k f} {d : Driver V M T}, r.At flag k f d →
      At.Ends r tracker (schedule.play workers) flag k f d d' ending →
        ∃ n f' d₁, r.At flag (k + n) f' d₁ ∧
          At.Ends r tracker (schedule.play workers) flag (k + n) f' d₁ d' ending :=
    fun h hends => ⟨0, _, _, h, hends⟩
  induction remaining generalizing k f d with
  | zero =>
    unfold Driver.drive at hdrive
    split at hdrive
    · next hzero =>
      cases hdrive
      exact hhere h (.finished (by rw [stop?, ← h.activeNodes, if_pos hzero]) rfl rfl)
    · next hsome =>
      cases hdrive
      refine hhere h (.finished ?_ rfl rfl)
      rw [stop?, ← h.activeNodes, if_neg hsome, if_pos (by omega)]
  | succ remaining ih =>
    unfold Driver.drive at hdrive
    split at hdrive
    · next hzero =>
      cases hdrive
      exact hhere h (.finished (by rw [stop?, ← h.activeNodes, if_pos hzero]) rfl rfl)
    · next hsome =>
      have hbelow : ¬ r.config.maxIterations ≤ k := by omega
      simp only at hdrive
      split at hdrive
      · next hcancelled =>
        cases hdrive
        rw [h.polls] at hcancelled
        refine hhere h (.finished ?_ rfl rfl)
        rw [stop?, ← h.activeNodes, if_neg hsome, if_neg hbelow, if_pos hcancelled]
      · next hcancelled =>
        rw [h.polls] at hcancelled
        have hgoing : r.stop? flag d.activeNodes k = none := by
          rw [stop?, if_neg hsome, if_neg hbelow, if_neg hcancelled]
        split at hdrive
        · next hsuperstep =>
          cases hdrive
          rw [h.activeNodes] at hgoing
          rcases Driver.superstep_ended hsuperstep with
            ⟨report, state, payload, houtside, rfl, hpanic⟩ | ⟨e, state, rfl, hfailure⟩
          · exact hhere h (.unwound houtside hpanic)
          · exact hhere h (.failed hgoing (h.size_eq ▸ hfailure))
        · next d₁ hsuperstep =>
          have hadvance : r.advance tracker (schedule.play workers) flag d = some d₁ :=
            advance_of_superstep (h.size_eq.symm ▸ hgoing) hsuperstep
          obtain ⟨f₁, h₁⟩ := h.advance hw hadvance
          obtain ⟨n, f', d₂, hat, hends⟩ := ih h₁ (by omega) hdrive
          rw [Nat.add_right_comm, Nat.add_assoc] at hat hends
          exact ⟨n + 1, f', d₂, hat, hends⟩

/-- How a run ends under a schedule: without a driver, or where its driver ends. -/
theorem under_spec [Memory.Allocator] (schedule : Schedule (r.job tracker)) (state : T)
    (flag : TerminationFlag) :
    (∃ report, r.prepare tracker state = .error report ∧
        (Run.under schedule state flag).ending = report.ending) ∨
      ∃ workers k f d d' ending, r.Staffed workers ∧ r.At flag k f d ∧
        At.Ends r tracker (schedule.play workers) flag k f d d' ending ∧
        (Run.under schedule state flag).ending = (d'.close ending).ending := by
  unfold under performBy
  cases hprepare : r.prepare tracker state with
  | error report => exact .inl ⟨report, rfl, rfl⟩
  | ok start =>
    obtain ⟨d, workers⟩ := start
    obtain ⟨hat, hw⟩ := at_start hprepare flag
    obtain ⟨d', ending, hdrive⟩ : ∃ d' ending, d.drive (r.job tracker) (schedule.play workers) flag
        r.config.maxIterations = (d', ending) := ⟨_, _, rfl⟩
    obtain ⟨n, f, d₁, hat', hends⟩ := hat.drive hw (Nat.zero_add _) hdrive
    simp only [hdrive]
    exact .inr ⟨workers, _, f, d₁, d', ending, hw, hat', hends, rfl⟩

/-- A result is that of the first frame of the course before which the run has to stop. -/
theorem finished_spec [Memory.Allocator] {state : T} {result : RunResult V}
    (h : (Run.under schedule state flag).ending = .finished result) :
    ∃ f, r.Course flag result.ranIterations f result.supersteps.toList ∧
      r.stop? flag f.active.card result.ranIterations = some result.termination ∧
      ∀ i < r.nodeCount, result.values.get? i = some (f.value i) := by
  rcases under_spec schedule state flag with ⟨report, hprepare, hending⟩ |
    ⟨workers, k, f, d, d', ending, -, hat, hends, hending⟩
  · obtain ⟨hempty, htermination, hsupersteps, hvalues⟩ :=
      r.prepare_finished hprepare (hending.symm.trans h)
    refine ⟨r.initialFrame, ?_, ?_, hvalues⟩
    · unfold RunResult.ranIterations
      rw [hsupersteps]
      exact .start
    · have hzero : r.initialFrame.active.card = 0 := by
        rw [Finset.card_eq_zero]
        exact hempty
      rw [stop?, if_pos hzero, htermination]
  · rw [h] at hending
    cases hends with
    | finished hstop hstore hsupersteps =>
      cases hending
      have hran : d'.supersteps.size = k := by rw [hsupersteps, hat.size_eq]
      refine ⟨f, ?_, ?_, ?_⟩
      · show r.Course flag d'.supersteps.size f d'.supersteps.toList
        rw [hran, hsupersteps]
        exact hat.course
      · show r.stop? flag f.active.card d'.supersteps.size = some _
        rw [hran]
        exact hstop
      · intro i hi
        show d'.store.values.get? i = _
        rw [hstore]
        exact hat.store.value_eq i hi
    | failed _ _ => cases hending
    | unwound _ _ => cases hending

/-- A failure of a run has a cause in the last frame that the run has reached, unless the run does
    not fit in memory. -/
theorem failed_spec [Memory.Allocator] {state : T} {e : RunError}
    (h : (Run.under schedule state flag).ending = .failed e) :
    ((∃ what n, e = .resourceExhausted what n) ∧ ¬ r.Fits) ∨
      ∃ workers w k f stats, r.Staffed workers ∧ w ∈ workers ∧ r.Course flag k f stats ∧
        r.stop? flag f.active.card k = none ∧ Cause (r.job tracker) k f w e := by
  rcases under_spec schedule state flag with ⟨report, hprepare, hending⟩ |
    ⟨workers, k, f, d, d', ending, hw, hat, hends, hending⟩
  · exact .inl (r.prepare_failed hprepare (hending.symm.trans h))
  · rw [h] at hending
    cases hends with
    | finished _ _ _ => cases hending
    | unwound _ _ => cases hending
    | @failed _ state hgoing hfailure =>
      cases hending
      obtain ⟨w, hmem, hcause⟩ := (schedule.interleaving workers k d.store state).exists_cause
        hw.team hat.store hfailure
      exact .inr ⟨workers, w, k, f, _, hw, hmem, hat.course, hgoing, hcause⟩

/-- A run is unwound only if the tracker panics outside of the workers. -/
theorem unwound_spec [Memory.Allocator] {state : T} {payload : PanicPayload}
    (h : (Run.under schedule state flag).ending = .unwound payload) :
    ∃ report state, (∀ n, report ≠ .logProgress n) ∧
      (tracker.take report state).2 = some payload := by
  rcases under_spec schedule state flag with ⟨report, hprepare, hending⟩ |
    ⟨workers, k, f, d, d', ending, -, -, hends, hending⟩
  · exact ⟨.beginTask, _, nofun, r.prepare_unwound hprepare (hending.symm.trans h)⟩
  · rw [h] at hending
    cases hends with
    | finished _ _ _ => cases hending
    | failed _ _ => cases hending
    | unwound houtside hpanic =>
      cases hending
      exact ⟨_, _, houtside, hpanic⟩

/-! ## Two runs whose frames agree -/

section

variable {T' : Type} {r' : Run W V M} {tracker' : Tracker T'} {f f' : Frame V M}

/-- Where the frames have the same values and active nodes, so has the storage. -/
theorem At.store_eq {d : Driver V M T} {d' : Driver V M T'} (h : r.At flag k f d)
    (h' : r'.At flag k f' d') (hcount : r'.nodeCount = r.nodeCount) (hvalue : f'.value = f.value)
    (hactive : f'.active = f.active) :
    (∀ i, d'.store.values.get? i = d.store.values.get? i) ∧
      ∀ i, (d'.store.active.current k).Has i ↔ (d.store.active.current k).Has i := by
  constructor
  · intro i
    by_cases hi : i < r.nodeCount
    · rw [h.store.value_eq i hi, h'.store.value_eq i (hcount.trans_gt hi), hvalue]
    · have hge : r.nodeCount ≤ i := Nat.not_lt.1 hi
      rw [h.store.values.get?_of_le hge, h'.store.values.get?_of_le (hcount.trans_le hge)]
  · intro i
    rw [h.store.has_current, h'.store.has_current, hactive]

/-- Two results, when the frames have the same values and active nodes after every superstep: they
    come after the same number of supersteps, with the same values and the same termination. -/
theorem finished_agree [Memory.Allocator] (hcount : r'.nodeCount = r.nodeCount)
    (hlimit : r'.config.maxIterations = r.config.maxIterations)
    (hframes : ∀ {k f f' stats stats'}, r.Course flag k f stats → r'.Course flag k f' stats' →
      f'.value = f.value ∧ f'.active = f.active)
    {schedule : Schedule (r.job tracker)} {schedule' : Schedule (r'.job tracker')} {state : T}
    {state' : T'} {result result' : RunResult V}
    (h : (Run.under schedule state flag).ending = .finished result)
    (h' : (Run.under schedule' state' flag).ending = .finished result') :
    (∀ i < r.nodeCount, result'.values.get? i = result.values.get? i) ∧
      result'.ranIterations = result.ranIterations ∧
      result'.termination = result.termination ∧
      ∃ f f', r.Course flag result.ranIterations f result.supersteps.toList ∧
        r'.Course flag result.ranIterations f' result'.supersteps.toList := by
  obtain ⟨f, hcourse, hstop, hvalues⟩ := finished_spec h
  obtain ⟨f', hcourse', hstop', hvalues'⟩ := finished_spec h'
  obtain ⟨hran, htermination⟩ := hcourse.eq_of_stop? hlimit
    (fun hc hc' => by rw [(hframes hc hc').2]) hcourse' hstop hstop'
  rw [hran] at hcourse'
  refine ⟨?_, hran, htermination, f, f', hcourse, hcourse'⟩
  intro i hi
  rw [hvalues i hi, hvalues' i (hcount.trans_gt hi), (hframes hcourse hcourse').1]

end

end Run

/-! ## A run with two nodes -/

/-- Two nodes, each with a relationship to the other. -/
def twoNodes : Graph Unit where
  nodeCount := 2
  relationshipCount := 2
  degree _ := 1
  relationships node := if node.val = 0 then [(⟨1⟩, ())] else [(⟨0⟩, ())]
  fault? _ := none
  isWeighted := false

/-- A run that looks for the components of the two nodes. -/
def twoNodesRun (kind : Combiner) (concurrency : Nat)
    (h : checkRun twoNodes { Config.default concurrency with combiner := kind }
      Components.computation = .ok ()) : Run Unit (Unsigned 64) (Unsigned 64) :=
  ⟨twoNodes, { Config.default concurrency with combiner := kind }, Components.computation, h⟩

/-- It completes its first superstep under every schedule. -/
theorem exists_after_twoNodesRun [Memory.Allocator] {kind : Combiner} {concurrency : Nat}
    {h : checkRun twoNodes { Config.default concurrency with combiner := kind }
      Components.computation = .ok ()}
    (hprepare : ∃ d workers,
      (twoNodesRun kind concurrency h).prepare Tracker.silent () = .ok (d, workers))
    (schedule : Schedule ((twoNodesRun kind concurrency h).job Tracker.silent)) :
    ∃ d, (twoNodesRun kind concurrency h).after schedule () .never 1 = some d := by
  obtain ⟨d, workers, hprepare⟩ := hprepare
  have hactive : d.activeNodes = 2 :=
    ((twoNodesRun kind concurrency h).prepare_spec hprepare).2.2.2.2.1
  refine Run.exists_after_succ (Run.after_zero hprepare) ?_ ?_ fun _ _ => rfl
  · rw [hactive]
    rfl
  · intro f stats hcourse i hi
    cases hcourse
    have hlt := (twoNodesRun kind concurrency h).initialNodes_lt hi
    have htwo : (twoNodesRun kind concurrency h).nodeCount = 2 := rfl
    rw [htwo] at hlt
    interval_cases i <;> rfl

end Superstep
