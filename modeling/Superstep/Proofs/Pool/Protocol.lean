import Superstep.Proofs.Pool.Workers
import Superstep.Proofs.Run.Course

/-!
# The driver and its workers keep in step

What the invariant says of every state that a pool can reach, whatever the order in which the driver
and the workers act, and however the workers fail and the tracker and the flag panic.

Results:
* `pool_in_step`: workers carry out the same superstep, and none while the driver counts; what a
  superstep returns is what its workers have made of it; the workers are told to stop once; and
  nobody is held up for ever.
* `Pool.Reaches.exists_schedule`: what the pool of a run comes to is what the run comes to under
  some schedule.
-/

namespace Superstep

variable {W V M T : Type}

/-- The driver resets or reads what the workers of a superstep have counted. -/
def Driver.Place.Counts : Driver.Place → Prop
  | .resetting _ | .taking | .reading _ _ => True
  | _ => False

/-- Worker `k` carries out superstep `t`. -/
def Pool.Busy (x : Pool V M T) (k t : Nat) : Prop :=
  x.turns k = t ∧ (x.places k = .working ∨ ∃ rest, x.places k = .adding rest)

/-- Worker `k` has failed in the superstep that it has carried out last. -/
def Pool.Failed (x : Pool V M T) (k : Nat) : Prop := (x.hands k).stage = .done true

namespace Pool

variable [Message M] {plan : Plan W V M T} {d : Driver V M T} {x x' : Pool V M T} {k t : Nat}

/-- Every action preserves the invariant. -/
theorem Sound.step (h : x.Sound plan d) (hstep : Step plan x x') : x'.Sound plan d := by
  cases hstep with
  | driver hstep => exact h.drive hstep
  | worker hw hstep => exact h.work hw hstep

/-- The invariant holds in every state that a pool can reach. -/
theorem Reaches.sound (h : Reaches plan d x) : x.Sound plan d := by
  induction h with
  | refl => exact sound_start plan d
  | tail _ hstep ih => exact ih.step hstep

/-! ## Nobody is held up for ever -/

omit [Message M] in
theorem exists_drive_of_before (h : x.place.station = .before .start) :
    ∃ x', x.drive plan = some x' := by
  cases hplace : x.place with
  | deciding =>
    simp only [drive, hplace]
    split
    · exact ⟨_, rfl⟩
    · split <;> exact ⟨_, rfl⟩
  | polling =>
    simp only [drive, hplace]
    split <;> exact ⟨_, rfl⟩
  | beginning =>
    simp only [drive, hplace]
    split <;> exact ⟨_, rfl⟩
  | taking =>
    simp only [drive, hplace]
    split <;> exact ⟨_, rfl⟩
  | ending outcome =>
    simp only [drive, hplace]
    split <;> exact ⟨_, rfl⟩
  | resetting rest => cases rest <;> simp [drive, hplace]
  | reading rest found => cases rest <;> simp [drive, hplace]
  | calling => simp [drive, hplace]
  | closing result => simp [drive, hplace]
  | releasing result => simp [drive, hplace]
  | _ =>
    rw [hplace] at h
    cases h

omit [Message M] in
theorem exists_drive_of_waiting {gate : Gate} {ticket : Nat}
    (h : x.place.station = .waiting gate ticket) (hfree : (x.barriers gate).generation ≠ ticket) :
    ∃ x', x.drive plan = some x' := by
  cases hplace : x.place with
  | atStart _ | atFinish _ | atLast _ _ =>
    rw [hplace] at h
    cases h
    simp [drive, hplace, hfree]
  | _ =>
    rw [hplace] at h
    cases h

theorem exists_work_of_before {gate : Gate} {w : Worker} (h : (x.places k).station = .before gate)
    (hnot : x.places k ≠ .gone) : ∃ x', x.work plan k w = some x' := by
  cases hplace : x.places k with
  | working =>
    simp only [work, hplace]
    split <;> exact ⟨_, rfl⟩
  | adding rest => cases rest <;> simp [work, hplace]
  | idle => simp [work, hplace]
  | looking => simp [work, hplace]
  | fetching => simp [work, hplace]
  | gone => exact absurd hplace hnot
  | _ =>
    rw [hplace] at h
    cases h

theorem exists_work_of_waiting {gate : Gate} {ticket : Nat} {w : Worker}
    (h : (x.places k).station = .waiting gate ticket)
    (hfree : (x.barriers gate).generation ≠ ticket) : ∃ x', x.work plan k w = some x' := by
  cases hplace : x.places k with
  | atStart _ | atFinish _ =>
    rw [hplace] at h
    cases h
    simp [work, hplace, hfree]
  | _ =>
    rw [hplace] at h
    cases h

/-- If those who are on their way to the barrier can act, somebody can act. -/
theorem Meets.exists_step {gate : Gate} (h : x.Meets plan gate)
    (hdriver : x.place.station = .before gate → ∃ x', x.drive plan = some x')
    (hworkers : ∀ k w, plan.workers[k]? = some w → (x.places k).station = .before gate →
      ∃ x', x.work plan k w = some x') : ∃ x', Step plan x x' := by
  obtain ⟨p, hp⟩ := Meeting.exists_not_waiting h
  have hstands := Meeting.stands h p
  cases p with
  | none =>
    have hdrive : ∃ x', x.drive plan = some x' := by
      rcases hstands with hbefore | hwaiting | ⟨ticket, hne, hwaiting⟩
      · exact hdriver hbefore
      · exact absurd hwaiting hp
      · exact exists_drive_of_waiting hwaiting hne.symm
    obtain ⟨x', hstep⟩ := hdrive
    exact ⟨x', .driver hstep⟩
  | some k =>
    have hw : plan.workers[k.val]? = some plan.workers[k.val] :=
      List.getElem?_eq_getElem k.isLt
    have hwork : ∃ x', x.work plan k plan.workers[k.val] = some x' := by
      rcases hstands with hbefore | hwaiting | ⟨ticket, hne, hwaiting⟩
      · exact hworkers k _ hw hbefore
      · exact absurd hwaiting hp
      · exact exists_work_of_waiting hwaiting hne.symm
    obtain ⟨x', hstep⟩ := hwork
    exact ⟨x', .worker hw hstep⟩

theorem Outside.exists_step (h : x.Outside plan d) : ∃ x', Step plan x x' :=
  h.meets.exists_step exists_drive_of_before fun _ _ _ hbefore =>
    exists_work_of_before hbefore fun hgone => by
      rw [hgone] at hbefore
      cases hbefore

theorem Inside.exists_step (h : x.Inside plan d) : ∃ x', Step plan x x' := by
  refine h.meets.exists_step (fun hbefore => ?_) fun k w hw hbefore => ?_
  · rcases h.place with ⟨_, hplace⟩ | hplace | ⟨_, hplace⟩
    · rw [hplace] at hbefore
      cases hbefore
    · simp [Pool.drive, hplace]
    · rw [hplace] at hbefore
      cases hbefore
  · obtain ⟨_, _, -, -, -, -, hall⟩ := h.turn.crew
    have hholds := hall k (List.getElem?_eq_some_iff.1 hw).1
    refine exists_work_of_before hbefore fun hgone => ?_
    rw [hgone] at hholds
    exact hholds

/-- At the end a worker that is not gone can act, and else the driver can. -/
theorem Leaving.exists_step (h : x.Leaving plan d) : x.Over plan ∨ ∃ x', Step plan x x' := by
  by_cases hgone : ∀ k < plan.workers.length, x.places k = .gone
  · obtain ⟨result, -, ⟨ticket, hplace⟩ | hplace | ⟨hplace, -⟩⟩ := h.ends
    · have hstation : x.place.station = .waiting .start ticket := by
        rw [hplace]
        rfl
      obtain ⟨x', hstep⟩ : ∃ x', x.drive plan = some x' :=
        exists_drive_of_waiting hstation (h.meets.drive_free hstation)
      exact .inr ⟨x', .driver hstep⟩
    · have hall : ((List.range plan.workers.length).all fun k => (x.places k).isGone) = true := by
        refine List.all_eq_true.2 fun k hk => ?_
        rw [hgone k (List.mem_range.1 hk)]
        rfl
      refine .inr ⟨x.drives (.left result), .driver ?_⟩
      simp only [Pool.drive, hplace]
      exact if_pos hall
    · exact .inl ⟨⟨result, hplace⟩, hgone⟩
  · push Not at hgone
    obtain ⟨k, hk, hnot⟩ := hgone
    have hw : plan.workers[k]? = some plan.workers[k] := List.getElem?_eq_getElem hk
    have hwork : ∃ x', x.work plan k plan.workers[k] = some x' := by
      have hdeparts := h.departs k hk
      cases hplace : x.places k with
      | atStart ticket =>
        have hstation := congrArg Worker.Place.station hplace
        exact exists_work_of_waiting hstation (h.meets.work_free hk hstation)
      | looking => exact exists_work_of_before (congrArg Worker.Place.station hplace) hnot
      | gone => exact absurd hplace hnot
      | _ =>
        rw [hplace] at hdeparts
        exact hdeparts.elim
    obtain ⟨x', hstep⟩ := hwork
    exact .inr ⟨x', .worker hw hstep⟩

/-- While the pool is not over, somebody can act. -/
theorem Sound.exists_step (h : x.Sound plan d) : x.Over plan ∨ ∃ x', Step plan x x' := by
  rcases h.phase with houtside | hinside | hleaving
  · exact .inr houtside.exists_step
  · exact .inr hinside.exists_step
  · exact hleaving.exists_step

/-! ## Who carries out what -/

omit [Message M] in
theorem Busy.station (h : x.Busy k t) : (x.places k).station = .before .finish := by
  rcases h.2 with hplace | ⟨rest, hplace⟩ <;>
  · rw [hplace]
    rfl

/-- A worker is busy with the superstep whose number is stored, and nobody has told it to stop. -/
theorem Sound.inside_of_busy (h : x.Sound plan d) (hk : k < plan.workers.length)
    (hbusy : x.Busy k t) : x.Inside plan d ∧ t = x.superstep := by
  rcases h.phase with houtside | hinside | hleaving
  · exact nomatch houtside.meets.work_before hk hbusy.station
  · refine ⟨hinside, ?_⟩
    obtain ⟨d₂, c, -, -, -, hd, hall⟩ := hinside.turn.crew
    have hholds := hall k hk
    have hturn : x.turns k = d₂.supersteps.size := by
      rcases hbusy.2 with hplace | ⟨rest, hplace⟩ <;>
      · rw [hplace] at hholds
        exact hholds.1
    rw [← hbusy.1, hturn, hinside.turn.superstep, hd]
    rfl
  · have hdeparts := hleaving.departs k hk
    rcases hbusy.2 with hplace | ⟨rest, hplace⟩ <;>
    · rw [hplace] at hdeparts
      exact hdeparts.elim

/-- While the driver counts, no worker is busy. -/
theorem Sound.not_busy_of_counts (h : x.Sound plan d) (hcounts : x.place.Counts)
    (hk : k < plan.workers.length) : ¬ x.Busy k t := by
  intro hbusy
  rcases (h.inside_of_busy hk hbusy).1.place with ⟨_, hplace⟩ | hplace | ⟨_, hplace⟩
  all_goals
    rw [hplace] at hcounts
    exact hcounts

theorem Sound.done_of_ending (h : x.Sound plan d) {outcome : Except RunError Tally}
    (hplace : x.place = .ending outcome) : ∃ d₂ c, d.Begun plan d₂ ∧ x.Done plan d₂ c ∧
      outcome = (c.round plan.workers).outcome := by
  rcases h.phase with houtside | hinside | hleaving
  · have hready := houtside.ready
    rw [hplace] at hready
    obtain ⟨d₂, c, hbegun, hdone, -, houtcome⟩ := hready
    exact ⟨d₂, c, hbegun, hdone, houtcome⟩
  · rcases hinside.place with ⟨_, hplace'⟩ | hplace' | ⟨_, hplace'⟩ <;>
      cases hplace.symm.trans hplace'
  · obtain ⟨_, -, ⟨_, hplace'⟩ | hplace' | ⟨hplace', -⟩⟩ := hleaving.ends <;>
      cases hplace.symm.trans hplace'

theorem Done.failed_iff {d₂ : Driver V M T} {c : Crew V M T} (h : x.Done plan d₂ c) :
    (∃ e, (c.round plan.workers).outcome = .error e) ↔
      ∃ k < plan.workers.length, x.Failed k := by
  have hfailed : (∃ e, (c.round plan.workers).outcome = .error e) ↔ c.shared.failure.isSome := by
    rw [Option.isSome_iff_exists]
    exact exists_congr fun e => Round.outcome_eq_error_iff
  rw [hfailed, (Crew.failuresRecorded_of_steps h.makes).failed_iff]
  refine exists_congr fun k => and_congr_right fun hk => ?_
  rw [Failed, h.hands k hk]

theorem Done.get_eq {d₂ : Driver V M T} {c : Crew V M T} (h : x.Done plan d₂ c) {tally : Tally}
    (houtcome : (c.round plan.workers).outcome = .ok tally) (counter : Counter) :
    tally.get counter =
      ∑ k ∈ Finset.range plan.workers.length, (x.hands k).counts.get counter := by
  rw [← (Round.outcome_eq_ok_iff.1 houtcome).2]
  refine (Crew.get_counts c plan.workers.length counter).trans (Finset.sum_congr rfl fun k hk => ?_)
  rw [h.hands k (Finset.mem_range.1 hk)]

/-! ## What the driver comes to -/

/-- What the pool of a run comes to is what the run comes to under some schedule. -/
theorem Reaches.exists_schedule [Memory.Allocator] {r : Run W V M} {tracker : Tracker T} {state : T}
    {flag : TerminationFlag} {workers : List Worker}
    (hprepare : r.prepare tracker state = .ok (d, workers))
    (h : Reaches ⟨r.job tracker, workers, r.config.maxIterations,
      fun k => .ok (flag.isCancelled k)⟩ d x)
    {result : DriverEnding} (hplace : x.place = .left result) :
    ∃ schedule : Schedule (r.job tracker),
      Run.under schedule state flag = x.driver.close result := by
  have hends : d.Ends ⟨r.job tracker, workers, r.config.maxIterations,
      fun k => .ok (flag.isCancelled k)⟩ x.driver result := by
    rcases h.sound.phase with houtside | hinside | hleaving
    · have hready := houtside.ready
      rw [hplace] at hready
      exact hready.elim
    · have hopened := hinside.opened
      rw [hplace] at hopened
      cases hopened
    · obtain ⟨_, hends, ⟨_, hplace'⟩ | hplace' | ⟨hplace', -⟩⟩ := hleaving.ends <;>
        cases hplace.symm.trans hplace'
      exact hends
  have hflag : ∀ k, (.ok (flag.isCancelled k) : Except PanicPayload Bool) =
      .ok (flag.isCancelled k) := fun _ => rfl
  obtain ⟨schedule, hdrive⟩ := hends.exists_schedule hflag
  have hsize : d.supersteps.size = 0 := by
    have hprepared := r.prepared_prepare tracker state
    rw [hprepare] at hprepared
    cases hprepared
    rfl
  refine ⟨schedule, ?_⟩
  rw [hsize] at hdrive
  unfold Run.under Run.performBy
  rw [hprepare]
  exact congrArg (fun p => p.1.close p.2) hdrive

end Pool

/-- In every state that a driver and its workers can reach, in whatever order they act, and
    whichever of them fail or panic: no two workers carry out different supersteps, and none carries
    out one while the driver resets or reads the counters. When a superstep returns, all its workers
    have carried out the superstep of the driver, as they can do it by themselves; it returns the
    sum of what they have counted, and it returns a failure if and only if one of them has failed.
    The workers are told to stop at most once, and they have been told when the driver has left. And
    unless the driver has left and all workers are gone, somebody can act. -/
theorem pool_in_step [Message M] {plan : Plan W V M T} {d : Driver V M T} {x : Pool V M T}
    (h : Pool.Reaches plan d x) :
    (∀ j < plan.workers.length, ∀ k < plan.workers.length, ∀ t t', x.Busy j t → x.Busy k t' →
      t = t') ∧
    (x.place.Counts → ∀ k < plan.workers.length, ∀ t, ¬ x.Busy k t) ∧
    (∀ outcome, x.place = .ending outcome →
      (∃ d₂ c, d.Begun plan d₂ ∧ x.driver.supersteps = d₂.supersteps ∧ Pool.Makes plan d₂ c ∧
        c.Finished plan.workers ∧ ∀ k < plan.workers.length,
          x.turns k = x.driver.supersteps.size ∧ x.hands k = c.hands k) ∧
      (∀ tally, outcome = .ok tally → ∀ counter, tally.get counter =
        ∑ k ∈ Finset.range plan.workers.length, (x.hands k).counts.get counter) ∧
      ((∃ e, outcome = .error e) ↔ ∃ k < plan.workers.length, x.Failed k)) ∧
    (x.shutdowns ≤ 1 ∧ ∀ result, x.place = .left result → x.shutdowns = 1) ∧
    (x.Over plan ∨ ∃ x', Pool.Step plan x x') := by
  have hx := h.sound
  refine ⟨fun j hj k hk t t' hbusy hbusy' => ?_,
    fun hcounts k hk t => hx.not_busy_of_counts hcounts hk, fun outcome hplace => ?_,
    ⟨?_, fun result hplace => ?_⟩, hx.exists_step⟩
  · rw [(hx.inside_of_busy hj hbusy).2, (hx.inside_of_busy hk hbusy').2]
  · obtain ⟨d₂, c, hbegun, hdone, rfl⟩ := hx.done_of_ending hplace
    have hsupersteps : x.driver.supersteps = d₂.supersteps := by
      rw [hdone.driver]
      rfl
    refine ⟨⟨d₂, c, hbegun, hsupersteps, hdone.makes, hdone.finished, fun k hk => ?_⟩,
      fun tally => hdone.get_eq, hdone.failed_iff⟩
    rw [hsupersteps]
    exact ⟨hdone.turns k hk, hdone.hands k hk⟩
  · rw [hx.shutdowns]
    exact Bool.toNat_le _
  · rw [hx.shutdowns, hplace]
    rfl

/-! ## Two workers -/

namespace Pool

variable [Message M] {plan : Plan W V M T} {d : Driver V M T}

/-- The driver (`none`) and the workers (by number) act in the given order. -/
def follow (plan : Plan W V M T) : List (Option Nat) → Pool V M T → Option (Pool V M T)
  | [], x => some x
  | none :: order, x => (x.drive plan).bind (follow plan order)
  | some k :: order, x =>
    (plan.workers[k]?).bind fun w => (x.work plan k w).bind (follow plan order)

theorem Reaches.follow {order : List (Option Nat)} {x x' : Pool V M T} (h : Reaches plan d x)
    (hfollow : Pool.follow plan order x = some x') : Reaches plan d x' := by
  induction order generalizing x with
  | nil =>
    cases hfollow
    exact h
  | cons p order ih =>
    cases p with
    | none =>
      obtain ⟨y, hstep, hfollow⟩ := Option.bind_eq_some_iff.1 hfollow
      exact ih (h.tail (.driver hstep)) hfollow
    | some k =>
      obtain ⟨w, hw, hfollow⟩ := Option.bind_eq_some_iff.1 hfollow
      obtain ⟨y, hstep, hfollow⟩ := Option.bind_eq_some_iff.1 hfollow
      exact ih (h.tail (.worker hw hstep)) hfollow

end Pool

/-- What two workers on the two nodes are to do. -/
def twoNodesPlan (workers : List Worker) : Plan Unit (Unsigned 64) (Unsigned 64) Unit :=
  ⟨(twoNodesRun .min 2 rfl).job Tracker.silent, workers, 10, fun _ => .ok false⟩

/-- The workers take turns in the first superstep, and the driver adds up what they have counted. -/
def twoNodesOrder : List (Option Nat) :=
  List.replicate 9 none ++ [some 0, some 1, none] ++
    (List.replicate 17 [some 0, some 1]).flatten ++ List.replicate 8 none

theorem pool_in_step_twoNodes : ∃ d workers x,
    (twoNodesRun .min 2 rfl).prepare Tracker.silent () = .ok (d, workers) ∧
      Pool.Reaches (twoNodesPlan workers) d x ∧ x.place = .ending (.ok ⟨2, 2, 0, 2⟩) ∧
      (∀ counter, Tally.get ⟨2, 2, 0, 2⟩ counter =
        ∑ k ∈ Finset.range workers.length, (x.hands k).counts.get counter) ∧
      (¬ ∃ k < workers.length, x.Failed k) ∧ x.shutdowns ≤ 1 ∧
      ∃ x', Pool.Step (twoNodesPlan workers) x x' := by
  have hcourse : (match (twoNodesRun .min 2 rfl).prepare Tracker.silent () with
      | .ok (d, workers) =>
        (Pool.follow (twoNodesPlan workers) twoNodesOrder (.start d)).map Pool.place
      | .error _ => none) = some (.ending (.ok ⟨2, 2, 0, 2⟩)) := by
    cbv
  cases hprepare : (twoNodesRun .min 2 rfl).prepare Tracker.silent () with
  | error report =>
    rw [hprepare] at hcourse
    cases hcourse
  | ok prepared =>
    obtain ⟨d, workers⟩ := prepared
    rw [hprepare] at hcourse
    obtain ⟨x, hfollow, hplace⟩ := Option.map_eq_some_iff.1 hcourse
    have hreaches : Pool.Reaches (twoNodesPlan workers) d x :=
      Pool.Reaches.follow .refl hfollow
    obtain ⟨-, -, hending, hshutdowns, hstep⟩ := pool_in_step hreaches
    obtain ⟨-, hsum, hfailed⟩ := hending _ hplace
    refine ⟨d, workers, x, rfl, hreaches, hplace, hsum _ rfl, fun h => ?_, hshutdowns.1,
      hstep.resolve_left ?_⟩
    · obtain ⟨e, he⟩ := hfailed.2 h
      cases he
    · rintro ⟨⟨result, hleft⟩, -⟩
      cases hplace.symm.trans hleft

end Superstep
