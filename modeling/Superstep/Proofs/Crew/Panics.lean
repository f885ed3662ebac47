import Superstep.Proofs.Crew.Reports

/-!
# Panics at the calls of a superstep

A worker at whose report the tracker panics fails: it stops the other workers, and records the panic
unless another failure has been recorded before. So a panic is on its way to be recorded from the
call on (`Crew.Answers`). A failure that is blamed on a worker and not on a node comes from a call,
since a step never fails in this way.

Results:
* `Crew.Traces.answers`: every execution keeps this.
* `Crew.Answers.isSome_of_finished`, `Crew.Answers.mem_panics`: what a superstep comes to during
  which the tracker panics, and where a panic comes from that is blamed on a worker.
-/

namespace Superstep

/-- The failure of a worker that has not yet been recorded. -/
def Stage.error? {V M : Type} : Stage V M → Option RunError
  | .failing e | .recording e => some e
  | _ => none

namespace Hand

variable {V M : Type} {batchSize n : Nat} {h : Hand V M}

theorem error?_of_due (hdue : h.due? batchSize = some n) : h.stage.error? = none := by
  obtain ⟨-, ⟨i, nodes, hstage, -⟩ | ⟨hstage, -⟩⟩ := due?_cases hdue <;>
  · rw [hstage]
    rfl

theorem error?_answered (hdue : h.due? batchSize = some n) (t : Nat)
    (panic : Option PanicPayload) : (h.answered t panic).stage.error? = panic.map (h.blame t) := by
  cases panic with
  | some payload => rfl
  | none =>
    obtain ⟨-, ⟨i, nodes, hstage, -⟩ | ⟨hstage, -⟩⟩ := due?_cases hdue <;>
    · unfold answered relieved onward
      rw [hstage]
      rfl

theorem message_of_blame {t : Nat} {payload : PanicPayload} {message : String}
    (hblame : h.blame t payload = .workerPanicked message) : message = payload.message := by
  unfold blame at hblame
  split at hblame
  · cases hblame
  · cases hblame
    rfl

end Hand

namespace Worker

variable {W V M T : Type} {job : Job W V M T} {t : Nat} {w : Worker} {h h' : Hand V M}
  {s s' : Shared V M T}

theorem failureOf?_ne_workerPanicked {node : NodeId} {nodeCount : UInt64}
    {failure : Option StepFailure} {lost : Option SendFailure} (message : String) :
    failureOf? node t nodeCount failure lost ≠ some (.workerPanicked message) := by
  unfold failureOf? stepError AllocationError.toRunError
  intro h
  repeat' split at h
  all_goals cases h

variable [Message M]

/-- An action without a report does not bring up a failure that is blamed on the worker, and does
    not lose one: what has not been recorded is recorded by and by. -/
theorem act_error? (hdue : h.due? job.batchSize = none) (hact : w.act job t h s = some (h', s')) :
    (∀ m, h'.stage.error? = some (.workerPanicked m) →
      h.stage.error? = some (.workerPanicked m)) ∧
    (∀ m, s'.failure = some (.workerPanicked m) →
      s.failure = some (.workerPanicked m) ∨ h.stage.error? = some (.workerPanicked m)) ∧
    (s.failure.isSome → s'.failure.isSome) ∧
    (h.stage.error?.isSome → s'.failure.isSome ∨ h'.stage.error?.isSome) := by
  cases acts_of_act hact with
  | look hstage => exact ⟨nofun, fun _ => .inl, id, by rw [hstage]; nofun⟩
  | stop hstage => exact ⟨nofun, fun _ => .inl, id, by rw [hstage]; nofun⟩
  | pick hstage _ hpick =>
    unfold pick at hpick
    split at hpick <;>
    · cases hpick
      exact ⟨nofun, fun _ => .inl, id, by rw [hstage]; nofun⟩
  | attempt hstage => exact ⟨nofun, fun _ => .inl, id, by rw [hstage]; nofun⟩
  | fail hstage hfail =>
    refine ⟨fun m hm => ?_, fun _ => .inl, id, by rw [hstage]; nofun⟩
    exact absurd (hfail.trans hm) (failureOf?_ne_workerPanicked m)
  | count hstage _ hcount =>
    cases hcount
    exact ⟨nofun, fun _ => .inl, id, by rw [hstage]; nofun⟩
  | batch hstage hbatch =>
    rw [reportBatch_of_not_due hstage hdue] at hbatch
    cases hbatch
    exact ⟨nofun, fun _ => .inl, id, by rw [hstage]; nofun⟩
  | rest hstage hrest =>
    rw [reportRest_of_not_due hstage hdue] at hrest
    cases hrest
    exact ⟨nofun, fun _ => .inl, id, by rw [hstage]; nofun⟩
  | clear hstage => exact ⟨nofun, fun _ => .inl, id, by rw [hstage]; nofun⟩
  | abort hstage =>
    rw [hstage]
    exact ⟨fun _ => id, fun _ => .inl, id, fun _ => .inr rfl⟩
  | @record e hstage =>
    rw [hstage]
    cases s.failure with
    | none => exact ⟨nofun, fun _ => .inr, fun _ => rfl, fun _ => .inl rfl⟩
    | some first => exact ⟨nofun, fun _ => .inl, id, fun _ => .inl rfl⟩

end Worker

namespace Crew

variable {W V M T : Type}

/-- The calls of a superstep that has begun with the tracker in the given state, and what the
    workers have made of the panics among them: a panic has been recorded as a failure, or a worker
    is about to record one, and a failure that is blamed on a worker is one of the panics. -/
structure Answers (tracker : Tracker T) (workers : List Worker) (state : T) (c : Crew V M T)
    (calls : List Call) : Prop where
  hand : ∀ k m, (c.hands k).stage.error? = some (.workerPanicked m) →
    ∃ payload ∈ tracker.panics (calls.map Call.report) state, m = payload.message
  shared : ∀ m, c.shared.failure = some (.workerPanicked m) →
    ∃ payload ∈ tracker.panics (calls.map Call.report) state, m = payload.message
  noticed : tracker.panics (calls.map Call.report) state ≠ [] → c.shared.failure.isSome ∨
    ∃ k < workers.length, (c.hands k).stage.error?.isSome

variable [Message M] {job : Job W V M T} {t : Nat} {workers : List Worker} {store : NodeStore V M}
  {state : T} {c : Crew V M T} {calls : List Call}

/-- A call is answered by its worker. -/
theorem Answers.call (hc : c.Answers job.tracker workers state calls)
    (htraces : Traces job t workers store state c calls) {k n : Nat} (hk : k < workers.length)
    (hdue : (c.hands k).due? job.batchSize = some n) :
    Answers job.tracker workers state
      ⟨Function.update c.hands k ((c.hands k).answered t
          (job.tracker.take (.logProgress n) c.shared.tracker).2),
        { c.shared with tracker := (job.tracker.take (.logProgress n) c.shared.tracker).1 }⟩
      (calls ++ [⟨k, n⟩]) := by
  have hpanics : job.tracker.panics ((calls ++ [Call.mk k n]).map Call.report) state =
      job.tracker.panics (calls.map Call.report) state ++
        (job.tracker.take (.logProgress n) c.shared.tracker).2.toList := by
    rw [List.map_append, Tracker.panics_append, ← htraces.tracker_eq]
    exact congrArg _ (Tracker.panics_singleton ..)
  have hself := Hand.error?_answered hdue t
    (job.tracker.take (.logProgress n) c.shared.tracker).2
  have hbefore {m : String} (h : ∃ payload ∈ job.tracker.panics (calls.map Call.report) state,
      m = payload.message) : ∃ payload ∈ job.tracker.panics
        ((calls ++ [Call.mk k n]).map Call.report) state, m = payload.message := by
    obtain ⟨payload, hmem, hm⟩ := h
    exact ⟨payload, hpanics ▸ List.mem_append_left _ hmem, hm⟩
  refine ⟨fun j m hj => ?_, fun m hm => hbefore (hc.shared m hm), fun hne => ?_⟩
  · by_cases hjk : j = k
    · subst hjk
      change (Function.update c.hands j _ j).stage.error? = some _ at hj
      rw [Function.update_self, hself] at hj
      obtain ⟨payload, hpayload, hblame⟩ := Option.map_eq_some_iff.1 hj
      refine ⟨payload, hpanics ▸ List.mem_append_right _ ?_, Hand.message_of_blame hblame⟩
      rw [hpayload]
      exact List.mem_singleton_self payload
    · change (Function.update c.hands k _ j).stage.error? = _ at hj
      rw [Function.update_of_ne hjk] at hj
      exact hbefore (hc.hand j m hj)
  · cases hpanic : (job.tracker.take (.logProgress n) c.shared.tracker).2 with
    | some payload =>
      refine .inr ⟨k, hk, ?_⟩
      rw [hpanic] at hself
      show (Function.update c.hands k _ k).stage.error?.isSome
      rw [Function.update_self, hself]
      rfl
    | none =>
      rw [hpanics, hpanic, Option.toList_none, List.append_nil] at hne
      refine (hc.noticed hne).imp_right fun ⟨j, hj, hsome⟩ => ⟨j, hj, ?_⟩
      have hjk : j ≠ k := by
        rintro rfl
        rw [Hand.error?_of_due hdue] at hsome
        cases hsome
      show (Function.update c.hands k _ j).stage.error?.isSome
      rw [Function.update_of_ne hjk]
      exact hsome

/-- An action without a report leaves the panics as they are. -/
theorem Answers.act (hc : c.Answers job.tracker workers state calls) {k : Nat} {w : Worker}
    (hk : k < workers.length) (hdue : (c.hands k).due? job.batchSize = none) {h : Hand V M}
    {s : Shared V M T} (hact : w.act job t (c.hands k) c.shared = some (h, s)) :
    Answers job.tracker workers state ⟨Function.update c.hands k h, s⟩ calls := by
  obtain ⟨hhand, hshared, hkept, hrecorded⟩ := Worker.act_error? hdue hact
  refine ⟨fun j m hj => ?_, fun m hm => ?_, fun hne => ?_⟩
  · by_cases hjk : j = k
    · subst hjk
      change (Function.update c.hands j h j).stage.error? = _ at hj
      rw [Function.update_self] at hj
      exact hc.hand j m (hhand m hj)
    · change (Function.update c.hands k h j).stage.error? = _ at hj
      rw [Function.update_of_ne hjk] at hj
      exact hc.hand j m hj
  · exact (hshared m hm).elim (hc.shared m) (hc.hand k m)
  · rcases hc.noticed hne with hsome | ⟨j, hj, hsome⟩
    · exact .inl (hkept hsome)
    · by_cases hjk : j = k
      · subst hjk
        refine (hrecorded hsome).imp_right fun hsome => ⟨j, hj, ?_⟩
        show (Function.update c.hands j h j).stage.error?.isSome
        rwa [Function.update_self]
      · refine .inr ⟨j, hj, ?_⟩
        show (Function.update c.hands k h j).stage.error?.isSome
        rwa [Function.update_of_ne hjk]

theorem Traces.answers (h : Traces job t workers store state c calls) :
    c.Answers job.tracker workers state calls := by
  induction h with
  | start => exact ⟨nofun, nofun, fun hne => absurd rfl hne⟩
  | @act c calls k w h s htraces hw hact ih =>
    have hk : k < workers.length := (List.getElem?_eq_some_iff.1 hw).1
    cases hdue : (c.hands k).due? job.batchSize with
    | none =>
      have hnext := ih.act hk hdue hact
      rwa [← List.append_nil calls] at hnext
    | some n =>
      rw [Worker.act_of_due hdue] at hact
      cases hact
      exact ih.call htraces hk hdue

omit [Message M] in
theorem Answers.isSome_of_finished {tracker : Tracker T}
    (hc : c.Answers tracker workers state calls) (hfinished : c.Finished workers)
    (hne : tracker.panics (calls.map Call.report) state ≠ []) : c.shared.failure.isSome := by
  refine (hc.noticed hne).resolve_right fun ⟨k, hk, hsome⟩ => ?_
  obtain ⟨failed, hdone⟩ := hfinished k hk
  rw [hdone] at hsome
  cases hsome

theorem Traces.amount_pos (h : Traces job t workers store state c calls)
    (hbatch : 0 < job.batchSize) : ∀ call ∈ calls, 0 < call.amount := by
  induction h with
  | start => nofun
  | @act c calls k _ _ _ _ _ _ ih =>
    intro call hcall
    rcases List.mem_append.1 hcall with hcall | hcall
    · exact ih call hcall
    · obtain ⟨n, hn, rfl⟩ := List.mem_map.1 hcall
      obtain ⟨rfl, ⟨i, nodes, -, hfull⟩ | ⟨-, hsome⟩⟩ :=
        Hand.due?_cases (Option.mem_toList.1 hn)
      · exact Nat.lt_of_lt_of_le hbatch hfull
      · exact hsome

end Crew

end Superstep
