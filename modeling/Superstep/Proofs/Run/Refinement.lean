import Superstep.Proofs.Crew.InOrder
import Superstep.Proofs.Run.Course

/-!
# A run with one worker is the machine

With one worker nothing is left open: the messages of a superstep arrive by ascending sender, each
sender's in the order of its step, and the storage of the run holds the frames of the machine.

Results:
* `refines_machine`: values, mailboxes and active nodes after every number of supersteps, and the
  result, are those of the machine.
-/

namespace Superstep

variable {W V M T : Type} [Message M]

/-- A run with one worker carries out its machine. After `k` supersteps, none of whose steps has
    failed, the values, the mailboxes of superstep `k` and its active nodes are those of frame `k`,
    and if the run need not stop and no step of frame `k` fails, there is one more superstep. A
    result has the values of the last frame and the counts of the frames before, and its
    termination is why the run stops there. -/
theorem refines_machine [Memory.Allocator] (r : Run W V M) (hone : r.config.concurrency = 1)
    {tracker : Tracker T}
    (schedule : Schedule (r.job tracker)) (state : T) (flag : TerminationFlag) :
    (∀ k d, r.after schedule state flag k = some d →
      (∀ t < k, r.program.Flawless (r.program.frame r.initialFrame t) t) ∧
      (∀ i < r.nodeCount, d.store.values.get? i =
        some ((r.program.frame r.initialFrame k).value i)) ∧
      (∀ i < r.nodeCount, d.store.mail.waiting? k i =
        some ((r.program.frame r.initialFrame k).inbox i).toArray) ∧
      (∀ i, (d.store.active.current k).Has i ↔ i ∈ (r.program.frame r.initialFrame k).active) ∧
      ((∀ report state, (tracker.take report state).2 = none) →
        r.stop? flag (r.program.frame r.initialFrame k).active.card k = none →
        r.program.Flawless (r.program.frame r.initialFrame k) k →
          ∃ d', r.after schedule state flag (k + 1) = some d')) ∧
    ∀ result, (Run.under schedule state flag).ending = .finished result →
      (∀ i < r.nodeCount, result.values.get? i =
        some ((r.program.frame r.initialFrame result.ranIterations).value i)) ∧
      (result.supersteps.toList = (List.range result.ranIterations).map fun t =>
        r.program.stats (r.program.frame r.initialFrame t) t) ∧
      r.stop? flag (r.program.frame r.initialFrame result.ranIterations).active.card
        result.ranIterations = some result.termination := by
  constructor
  · intro k d h
    obtain ⟨f, hat⟩ := Run.exists_course h
    obtain ⟨rfl, -⟩ := hat.course.eq_frame hone
    refine ⟨?_, hat.store.value_eq, hat.store.inbox_eq, hat.store.has_current, ?_⟩
    · intro t ht
      obtain ⟨f, stats, hcourse, -, hflawless⟩ := hat.course.going ht
      rw [(hcourse.eq_frame hone).1] at hflawless
      exact hflawless
    · intro htracker hgoing hflawless
      rw [← hat.activeNodes] at hgoing
      refine Run.exists_after_succ h hgoing (?_) htracker
      intro f stats hcourse
      rw [(hcourse.eq_frame hone).1]
      exact hflawless
  · intro result h
    obtain ⟨f, hcourse, hstop, hvalues⟩ := Run.finished_spec h
    obtain ⟨rfl, hstats⟩ := hcourse.eq_frame hone
    exact ⟨hvalues, hstats, hstop⟩

/-- After one superstep each of two nodes has the label of the other one waiting. -/
theorem refines_machine_twoNodes :
    (twoNodesRun .min 1 rfl).config.concurrency = 1 ∧
      ∃ d, (twoNodesRun .min 1 rfl).after
          (.inOrder ((twoNodesRun .min 1 rfl).job Tracker.silent)) () .never 1 = some d ∧
        d.store.mail.waiting? 1 0 = some #[.ofNat 1] ∧
        d.store.mail.waiting? 1 1 = some #[.ofNat 0] := by
  refine ⟨rfl, ?_⟩
  obtain ⟨d, hd⟩ := exists_after_twoNodesRun (h := rfl) ⟨_, _, rfl⟩
    (.inOrder ((twoNodesRun .min 1 rfl).job Tracker.silent))
  obtain ⟨-, -, hinbox, -⟩ := (refines_machine _ rfl _ _ _).1 1 d hd
  exact ⟨d, hd, hinbox 0 (by decide), hinbox 1 (by decide)⟩

end Superstep
