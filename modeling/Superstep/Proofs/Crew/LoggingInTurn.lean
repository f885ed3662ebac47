import Superstep.Proofs.Crew.Logging

/-!
# Calls of the log that do not overlap

A worker that has begun a call may take all steps of it before anything else happens
(`LogCrew.StepInTurn`). Then the calls are single actions: the lines that are written between two
calls are those that `LoggingProgress.take` puts out when it takes one call after the other, and
every execution in which calls are single actions comes about in this way.

Results:
* `LogCrew.percents_of_inTurn`: what is written.
* `LogCrew.getLast?_percents_of_inTurn`: the last percentage after `d` of `v` nodes.
* `LogCrew.exists_inTurn`: every execution in which calls are single actions comes about.
-/

namespace Superstep.LogCrew

variable {W V M : Type}

/-- A step of the call that is under way, or any step if there is none: a worker that is in a call
    is somewhere else in it afterwards. -/
def StepInTurn [Message M] (job : Job W V M LoggingProgress) (t : Nat) (workers : List Worker)
    (x x' : LogCrew V M) : Prop :=
  Step job t workers x x' ∧ ∀ k, x.call k ≠ none → x'.call k ≠ x.call k

/-- Worker `k` is in a call about `n` nodes, after the calls `before`, and has found the log in the
    state `q`. -/
structure Busy (p : LoggingProgress) (x : LogCrew V M) (before : List Call) (q : LoggingProgress)
    (k n : Nat) (call : LogCall) : Prop where
  call_eq : x.call = Function.update (fun _ => none) k (some call)
  calls_eq : x.book.calls = before ++ [⟨k, n⟩]
  percents_eq : x.book.percents = LoggingProgress.percents (before.map Call.report) p
  found : q = LoggingProgress.tracker.replay (before.map Call.report) p

/-- What has been logged since `p`, with calls that do not overlap: between two calls, or within a
    call. -/
inductive InTurn (p : LoggingProgress) (x : LogCrew V M) : Prop
  | between : (∀ k, x.call k = none) →
    x.log = LoggingProgress.tracker.replay (x.book.calls.map Call.report) p →
    x.book.percents = LoggingProgress.percents (x.book.calls.map Call.report) p → InTurn p x
  | added {before : List Call} {q : LoggingProgress} {k n : Nat} {done : UInt64} :
    x.Busy p before q k n (.added done) → Word.add? q.processed n.toUInt64 = some done →
    x.log = { q with processed := q.processed + n.toUInt64 } → InTurn p x
  | measured {before : List Call} {q : LoggingProgress} {k n : Nat} {tenth : UInt64} :
    x.Busy p before q k n (.measured tenth) → q.reach n.toUInt64 = .ok tenth →
    x.log = { q with processed := q.processed + n.toUInt64 } → InTurn p x
  | won {before : List Call} {q : LoggingProgress} {k n : Nat} {tenth : UInt64} :
    x.Busy p before q k n (.won tenth) → q.reach n.toUInt64 = .ok tenth → q.reported < tenth →
    x.log = { q with processed := q.processed + n.toUInt64, reported := tenth } → InTurn p x

variable {p q : LoggingProgress} {x x' : LogCrew V M} {before : List Call} {k n : Nat}
  {call : LogCall}

theorem Busy.call_self (hb : x.Busy p before q k n call) : x.call k = some call := by
  rw [hb.call_eq, Function.update_self]

theorem Busy.eq_of_call (hb : x.Busy p before q k n call) {j : Nat} {other : LogCall}
    (hj : x.call j = some other) : j = k ∧ other = call := by
  rw [hb.call_eq] at hj
  obtain ⟨rfl, ⟨⟩⟩ | ⟨-, ⟨⟩⟩ := of_update_eq_some hj
  exact ⟨rfl, rfl⟩

theorem Busy.not_of_none (hb : x.Busy p before q k n call)
    (hturn : ∀ k, x.call k ≠ none → x'.call k ≠ x.call k) {j : Nat} (hj : x.call j = none)
    {new : Option LogCall} (hcall : x'.call = Function.update x.call j new) : False := by
  have hkj : k ≠ j := by
    rintro rfl
    cases hj.symm.trans hb.call_self
  refine hturn k (by rw [hb.call_self]; nofun) ?_
  rw [hcall, Function.update_of_ne hkj]

theorem Busy.proceed (hb : x.Busy p before q k n call) (next : LogCall)
    (hcall : x'.call = Function.update x.call k (some next)) (hcalls : x'.book.calls = x.book.calls)
    (hwritten : x'.book.written = x.book.written) : x'.Busy p before q k n next where
  call_eq := by rw [hcall, hb.call_eq, Function.update_idem]
  calls_eq := hcalls.trans hb.calls_eq
  percents_eq := (congrArg (List.map (· * 10)) hwritten).trans hb.percents_eq
  found := hb.found

theorem inTurn_append (hnone : ∀ j, x'.call j = none)
    (hcalls : x'.book.calls = before ++ [⟨k, n⟩])
    (hlog : x'.log =
      ((LoggingProgress.tracker.replay (before.map Call.report) p).take (.logProgress n)).1)
    (hpercents : x'.book.percents = LoggingProgress.percents (before.map Call.report) p ++
      LoggingProgress.percents [.logProgress n]
        (LoggingProgress.tracker.replay (before.map Call.report) p)) : x'.InTurn p := by
  refine .between hnone ?_ ?_
  · rw [hcalls, List.map_append, Tracker.replay_append]
    exact hlog
  · rw [hcalls, List.map_append, LoggingProgress.percents_append]
    exact hpercents

/-- The worker comes back from its call, and has written the line of the call if there is one. -/
theorem Busy.answer (hb : x.Busy p before q k n call)
    (hcall : x'.call = Function.update x.call k none) (hcalls : x'.book.calls = x.book.calls)
    (hlog : x'.log = (q.take (.logProgress n)).1)
    (hpercents : x'.book.percents =
      x.book.percents ++ LoggingProgress.percents [.logProgress n] q) : x'.InTurn p := by
  obtain rfl := hb.found
  refine inTurn_append ?_ (hcalls.trans hb.calls_eq) hlog (hb.percents_eq ▸ hpercents)
  intro j
  rw [hcall, hb.call_eq, Function.update_idem]
  exact congrFun (Function.update_eq_self (f := fun _ => (none : Option LogCall)) k) j

/-- The worker comes back from a call that has not raised the last tenth. -/
theorem Busy.answer_of_raised_eq (hb : x.Busy p before q k n call)
    (hraised : q.raised n.toUInt64 = q.reported)
    (hcall : x'.call = Function.update x.call k none) (hcalls : x'.book.calls = x.book.calls)
    (hlog : x'.log = { q with processed := q.processed + n.toUInt64 })
    (hpercents : x'.book.percents = x.book.percents) : x'.InTurn p := by
  refine hb.answer hcall hcalls ?_ ?_
  · rw [LoggingProgress.take_of_raised_eq hraised, hlog]
  · rw [LoggingProgress.percents_of_raised_eq hraised, List.append_nil, hpercents]

/-- The next step is one of a worker that is in no call only between two calls. -/
theorem InTurn.idle (hx : x.InTurn p) (hturn : ∀ k, x.call k ≠ none → x'.call k ≠ x.call k)
    {j : Nat} (hj : x.call j = none) {new : Option LogCall}
    (hcall : x'.call = Function.update x.call j new) :
    (∀ k, x.call k = none) ∧
      x.log = LoggingProgress.tracker.replay (x.book.calls.map Call.report) p ∧
      x.book.percents = LoggingProgress.percents (x.book.calls.map Call.report) p := by
  cases hx with
  | between hnone hreplay hpercents => exact ⟨hnone, hreplay, hpercents⟩
  | added hb => exact (hb.not_of_none hturn hj hcall).elim
  | measured hb => exact (hb.not_of_none hturn hj hcall).elim
  | won hb => exact (hb.not_of_none hturn hj hcall).elim

theorem InTurn.of_added (hx : x.InTurn p) {done : UInt64} (hcall : x.call k = some (.added done)) :
    ∃ before q n, x.Busy p before q k n (.added done) ∧
      Word.add? q.processed n.toUInt64 = some done ∧
      x.log = { q with processed := q.processed + n.toUInt64 } := by
  cases hx with
  | between hnone => cases (hnone k).symm.trans hcall
  | added hb hadd hlog =>
    obtain ⟨rfl, ⟨⟩⟩ := hb.eq_of_call hcall
    exact ⟨_, _, _, hb, hadd, hlog⟩
  | measured hb => cases (hb.eq_of_call hcall).2
  | won hb => cases (hb.eq_of_call hcall).2

theorem InTurn.of_measured (hx : x.InTurn p) {tenth : UInt64}
    (hcall : x.call k = some (.measured tenth)) :
    ∃ before q n, x.Busy p before q k n (.measured tenth) ∧ q.reach n.toUInt64 = .ok tenth ∧
      x.log = { q with processed := q.processed + n.toUInt64 } := by
  cases hx with
  | between hnone => cases (hnone k).symm.trans hcall
  | added hb => cases (hb.eq_of_call hcall).2
  | measured hb hreach hlog =>
    obtain ⟨rfl, ⟨⟩⟩ := hb.eq_of_call hcall
    exact ⟨_, _, _, hb, hreach, hlog⟩
  | won hb => cases (hb.eq_of_call hcall).2

theorem InTurn.of_won (hx : x.InTurn p) {tenth : UInt64} (hcall : x.call k = some (.won tenth)) :
    ∃ before q n, x.Busy p before q k n (.won tenth) ∧ q.reach n.toUInt64 = .ok tenth ∧
      q.reported < tenth ∧
      x.log = { q with processed := q.processed + n.toUInt64, reported := tenth } := by
  cases hx with
  | between hnone => cases (hnone k).symm.trans hcall
  | added hb => cases (hb.eq_of_call hcall).2
  | measured hb => cases (hb.eq_of_call hcall).2
  | won hb hreach hlt hlog =>
    obtain ⟨rfl, ⟨⟩⟩ := hb.eq_of_call hcall
    exact ⟨_, _, _, hb, hreach, hlt, hlog⟩

theorem inTurn_start (store : NodeStore V M) (p : LoggingProgress) : (start store p).InTurn p :=
  .between (fun _ => rfl) rfl rfl

variable [Message M] {job : Job W V M LoggingProgress} {t : Nat} {workers : List Worker}
  {store : NodeStore V M}

/-- One step between two calls or within a call. -/
theorem InTurn.step (hx : x.InTurn p) (hstep : StepInTurn job t workers x x') : x'.InTurn p := by
  obtain ⟨hstep, hturn⟩ := hstep
  cases hstep with
  | @act k w h s hw hnone hdue hact =>
    have hself : x.call = Function.update x.call k none :=
      (Function.update_eq_self_iff.2 hnone.symm).symm
    have hlog : s.tracker = x.log := Worker.tracker_of_not_due hdue hact
    obtain ⟨hcall, hreplay, hpercents⟩ := hx.idle hturn hnone hself
    exact .between hcall (hlog.trans hreplay) hpercents
  | @add k n done hk hnone hdue hadd =>
    obtain ⟨hcall, hreplay, hpercents⟩ := hx.idle hturn hnone rfl
    refine .added (n := n) ⟨?_, rfl, hpercents, hreplay⟩ hadd rfl
    exact congrArg (Function.update · k _) (funext hcall)
  | @overflow k n hk hnone hdue hadd =>
    have hself : x.call = Function.update x.call k none :=
      (Function.update_eq_self_iff.2 hnone.symm).symm
    obtain ⟨hcall, hreplay, hpercents⟩ := hx.idle hturn hnone hself
    have hraised : x.log.raised n.toUInt64 = x.log.reported := by
      rw [LoggingProgress.raised, LoggingProgress.reach, hadd]
    refine inTurn_append hcall rfl ?_ ?_
    · rw [← hreplay, LoggingProgress.take_of_raised_eq hraised]
      rfl
    · rw [← hreplay, LoggingProgress.percents_of_raised_eq hraised, List.append_nil]
      exact hpercents
  | @measure k done tenth hadded htenth =>
    obtain ⟨before, q, n, hb, hadd, hlog⟩ := hx.of_added hadded
    rw [hlog] at htenth
    refine .measured (hb.proceed (.measured tenth) rfl rfl rfl) ?_ hlog
    rw [LoggingProgress.reach_of_add? hadd, htenth]
  | @fail k done hadded htenth =>
    obtain ⟨before, q, n, hb, hadd, hlog⟩ := hx.of_added hadded
    rw [hlog] at htenth
    have hraised : q.raised n.toUInt64 = q.reported := by
      rw [LoggingProgress.raised, LoggingProgress.reach_of_add? hadd, htenth]
    exact hb.answer_of_raised_eq hraised rfl rfl hlog rfl
  | @win k tenth hmeasured hlt =>
    obtain ⟨before, q, n, hb, hreach, hlog⟩ := hx.of_measured hmeasured
    rw [hlog] at hlt ⊢
    exact .won (hb.proceed _ rfl rfl rfl) hreach hlt rfl
  | @lose k tenth hmeasured hnot =>
    obtain ⟨before, q, n, hb, hreach, hlog⟩ := hx.of_measured hmeasured
    rw [hlog] at hnot
    have hraised : q.raised n.toUInt64 = q.reported := by
      rw [LoggingProgress.raised, hreach]
      exact if_neg hnot
    exact hb.answer_of_raised_eq hraised rfl rfl hlog rfl
  | @write k tenth hwon =>
    obtain ⟨before, q, n, hb, hreach, hlt, hlog⟩ := hx.of_won hwon
    have hraised : q.raised n.toUInt64 = tenth := by
      rw [LoggingProgress.raised, hreach]
      exact if_pos hlt
    refine hb.answer rfl rfl ?_ ?_
    · rw [LoggingProgress.take_logProgress, hraised]
      exact hlog
    · rw [LoggingProgress.percents_logProgress, hraised, if_pos hlt]
      exact List.map_append

theorem inTurn_of_steps
    (hsteps : Relation.ReflTransGen (StepInTurn job t workers) (start store p) x) :
    x.InTurn p := by
  induction hsteps with
  | refl => exact inTurn_start store p
  | tail _ hstep ih => exact ih.step hstep

/-- Between two calls the lines are those of the calls that have been made, one after the other. -/
theorem percents_of_inTurn
    (hsteps : Relation.ReflTransGen (StepInTurn job t workers) (start store p) x)
    (hnone : ∀ k, x.call k = none) :
    x.book.percents = LoggingProgress.percents (x.book.calls.map Call.report) p := by
  cases inTurn_of_steps hsteps with
  | between _ _ hpercents => exact hpercents
  | added hb => cases hb.call_self.symm.trans (hnone _)
  | measured hb => cases hb.call_self.symm.trans (hnone _)
  | won hb => cases hb.call_self.symm.trans (hnone _)

/-- Calls that do not overlap are among those that may. -/
theorem steps_of_inTurn
    (hsteps : Relation.ReflTransGen (StepInTurn job t workers) (start store p) x) :
    Relation.ReflTransGen (Step job t workers) (start store p) x :=
  hsteps.lift id fun _ _ hstep => hstep.1

/-- The last percentage after `d` of `v` nodes, unless it is zero. -/
theorem getLast?_percents_of_inTurn {f : Frame V M} (hlog : job.tracker = LoggingProgress.tracker)
    (hsteps : Relation.ReflTransGen (StepInTurn job t workers) (start store p) x)
    (hnone : ∀ k, x.call k = none) (ht : Team job.program workers) (hf : f.Proper job.program)
    (hstore : store.Holds job.program t f) (hbatch : 0 < job.batchSize)
    (hprocessed : p.processed = 0) (hreported : p.reported = 0)
    (hvolume : p.volume.toNat = f.active.card) (hsmall : 10 * p.volume.toNat < wordLimit)
    (hpos : 0 < 10 * Call.total x.book.calls / f.active.card) :
    x.book.percents.getLast? =
      some (10 * (10 * Call.total x.book.calls / f.active.card)).toUInt64 := by
  have htraces := traces_of_none hlog (steps_of_inTurn hsteps) hnone
  have hquiet := htraces.panics_of_log hlog ht hf hstore hbatch hprocessed hreported hvolume hsmall
  have htotal := htraces.total_le_card ht hf hstore hbatch hquiet
  rw [← hvolume] at htotal hpos ⊢
  rw [percents_of_inTurn hsteps hnone]
  exact LoggingProgress.getLast?_percents hprocessed hreported hsmall htotal hpos

omit [Message M] in
/-- If worker `k` alone is in a call, its next step is a step in turn. -/
theorem turn_of_none (hnone : ∀ j, x.call j = none) (k : Nat) {new : Option LogCall}
    (hne : new ≠ some call) (j : Nat) (hj : Function.update x.call k (some call) j ≠ none) :
    Function.update (Function.update x.call k (some call)) k new j ≠
      Function.update x.call k (some call) j := by
  by_cases hjk : j = k
  · subst hjk
    rw [Function.update_self, Function.update_self]
    exact hne
  · rw [Function.update_of_ne hjk] at hj
    exact absurd (hnone j) hj

/-- A worker may take all steps of a call at once. -/
theorem exists_call (hnone : ∀ j, x.call j = none) (hk : k < workers.length)
    (hdue : (x.crew.hands k).due? job.batchSize = some n) :
    ∃ x', Relation.ReflTransGen (StepInTurn job t workers) x x' ∧ (∀ j, x'.call j = none) ∧
      x'.crew = ⟨Function.update x.crew.hands k
          ((x.crew.hands k).answered t (x.log.panic? (.logProgress n))),
        { x.crew.shared with tracker := (x.log.take (.logProgress n)).1 }⟩ ∧
      x'.book.calls = x.book.calls ++ [⟨k, n⟩] := by
  have hback : ∀ {call} j, Function.update (Function.update x.call k call) k none j = none := by
    intro call j
    rw [Function.update_idem, Function.update_eq_self_iff.2 (hnone k).symm]
    exact hnone j
  have hturn : ∀ {y : LogCrew V M} j, x.call j ≠ none → y.call j ≠ x.call j :=
    fun j hj => absurd (hnone j) hj
  have hstart := Relation.ReflTransGen.refl (a := x) (r := StepInTurn job t workers)
  rw [LoggingProgress.take_logProgress, LoggingProgress.panic?_logProgress,
    LoggingProgress.raised]
  cases hadd : Word.add? x.log.processed n.toUInt64 with
  | none =>
    rw [LoggingProgress.reach, hadd]
    exact ⟨_, hstart.tail ⟨.overflow hk (hnone k) hdue hadd, hturn⟩, hnone, rfl, rfl⟩
  | some done =>
    have hadded := hstart.tail ⟨.add hk (hnone k) hdue hadd, hturn⟩
    rw [LoggingProgress.reach_of_add? hadd]
    cases htenth : LoggingProgress.tenth? x.log.volume done with
    | none =>
      have hfail := hadded.tail
        ⟨.fail (Function.update_self ..) htenth, turn_of_none hnone k (by simp)⟩
      exact ⟨_, hfail, hback, rfl, rfl⟩
    | some tenth =>
      have hmeasure := hadded.tail
        ⟨.measure (Function.update_self ..) htenth, turn_of_none hnone k (by simp)⟩
      simp only [Function.update_idem] at hmeasure
      dsimp only
      split
      · next hlt =>
        have hwin := hmeasure.tail
          ⟨.win (Function.update_self ..) hlt, turn_of_none hnone k (by simp)⟩
        simp only [Function.update_idem] at hwin
        exact ⟨_, hwin.tail ⟨.write (Function.update_self ..), turn_of_none hnone k (by simp)⟩,
          hback, rfl, rfl⟩
      · next hnot =>
        exact ⟨_, hmeasure.tail ⟨.lose (Function.update_self ..) hnot,
          turn_of_none hnone k (by simp)⟩, hback, rfl, rfl⟩

/-- Every execution in which calls are single actions is one in which they do not overlap. -/
theorem exists_inTurn {c : Crew V M LoggingProgress} {calls : List Call}
    (hlog : job.tracker = LoggingProgress.tracker)
    (htraces : Crew.Traces job t workers store p c calls) :
    ∃ x, Relation.ReflTransGen (StepInTurn job t workers) (start store p) x ∧
      (∀ k, x.call k = none) ∧ x.crew = c ∧ x.book.calls = calls := by
  induction htraces with
  | start => exact ⟨_, .refl, fun _ => rfl, rfl, rfl⟩
  | @act c calls k w h s htraces hw hact ih =>
    obtain ⟨x, hsteps, hnone, rfl, rfl⟩ := ih
    cases hdue : (x.crew.hands k).due? job.batchSize with
    | none =>
      refine ⟨_, hsteps.tail ⟨.act hw (hnone k) hdue hact, ?_⟩, hnone, rfl, ?_⟩
      · exact fun j hj => absurd (hnone j) hj
      · simp [Call.due]
    | some n =>
      rw [Worker.act_of_due hdue, hlog] at hact
      cases hact
      obtain ⟨x', hsteps', hnone', hcrew, hcalls⟩ :=
        exists_call hnone (List.getElem?_eq_some_iff.1 hw).1 hdue
      exact ⟨x', hsteps.trans hsteps', hnone', hcrew, hcalls⟩

end Superstep.LogCrew
