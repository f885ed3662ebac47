import Superstep.Proofs.Crew.Tracking
import Superstep.Proofs.Run.Accounting

/-!
# Every active node is executed exactly once

The partitions of a run end in the middle of words and pages, so a worker loads words from which its
neighbours are removing their nodes. All the same each worker executes the active nodes of its own
partition, one after the other, and finds their values and their messages.

Results:
* `WordCrew.existsUnique_executed`: no active node is executed by two workers or by none.
* `WordCrew.has_iff_of_finished`: which bits are set when all workers are done.
* `executed_exactly_once`: what the workers of a run execute in a superstep, and what they leave.
-/

namespace Superstep

variable {W V M T : Type} [Message M]

namespace WordCrew

variable {job : Job W V M T} {t : Nat} {f : Frame V M} {workers : List Worker}

/-- The workers act in the given order, as far as they can. -/
def follow (job : Job W V M T) (t : Nat) (workers : List Worker) :
    WordCrew V M T → List Nat → WordCrew V M T
  | x, [] => x
  | x, k :: order =>
    match workers[k]?.bind fun w => w.actWord job t (x.scans k) x.shared with
    | some (y, s) => follow job t workers ⟨Function.update x.scans k y, s⟩ order
    | none => follow job t workers x order

/-- Every order is an interleaving. -/
theorem steps_follow (job : Job W V M T) (t : Nat) (workers : List Worker) (x : WordCrew V M T)
    (order : List Nat) :
    Relation.ReflTransGen (Step job t workers) x (follow job t workers x order) := by
  induction order generalizing x with
  | nil => exact .refl
  | cons k order ih =>
    unfold follow
    split
    · next y s hact =>
      obtain ⟨w, hw, hact⟩ := Option.bind_eq_some_iff.1 hact
      exact .head (.act hw hact) (ih _)
    · exact ih x

/-- Whether a worker is done. -/
instance (stage : Stage V M) : Decidable (∃ failed, stage = .done failed) :=
  match stage with
  | .done failed => .isTrue ⟨failed, rfl⟩
  | .waiting | .between _ | .sending .. | .counted .. | .reporting | .clearing | .failing _
  | .recording _ => .isFalse nofun

/-- Whether all workers are done. -/
instance (workers : List Worker) (c : Crew V M T) : Decidable (c.Finished workers) :=
  inferInstanceAs (Decidable (∀ k < workers.length, ∃ failed, (c.hands k).stage = .done failed))

section

variable {store : NodeStore V M} {tracker : T} {x : WordCrew V M T} (ht : Team job.program workers)
  (hf : f.Proper job.program) (hstore : store.Holds job.program t f)
  (hsteps : Relation.ReflTransGen (Step job t workers) (.start store tracker) x)
  (hfinished : x.crew.Finished workers) (hfailure : x.shared.failure = none)
include ht hf hstore hsteps hfinished hfailure

/-- In a superstep without a failure every active node is executed by exactly one worker. -/
theorem existsUnique_executed {i : Nat} (hi : i ∈ f.active) :
    ∃! k, k < workers.length ∧ i ∈ (x.scans k).executed := by
  have hmem : i ∈ workers.flatMap (job.program.share f) := by
    rw [ht.flatMap_share]
    exact Program.mem_nodes.2 ⟨hf.active_lt i hi, hi⟩
  obtain ⟨w, hw, hshare⟩ := List.mem_flatMap.1 hmem
  obtain ⟨k, hk⟩ := List.getElem?_of_mem hw
  refine ⟨k, ⟨(List.getElem?_eq_some_iff.1 hk).1, ?_⟩, ?_⟩
  · rw [executed_eq ht hstore hsteps hfinished hfailure hk]
    exact hshare
  · rintro j ⟨hj, hij⟩
    have hv := List.getElem?_eq_getElem hj
    rw [executed_eq ht hstore hsteps hfinished hfailure hv] at hij
    exact ht.eq_of_mem hv hk (Program.mem_share.1 hij).1 (Program.mem_share.1 hshare).1

/-- A superstep without a failure leaves no bit of its active nodes, and every bit of those of the
    next superstep. -/
theorem has_iff_of_finished : (∀ i, ¬ (x.shared.store.active.current t).Has i) ∧
    ∀ i, (x.shared.store.active.next t).Has i ↔
      i ∈ (f.active.filter fun i => (job.program.outcome f t i).halt = false) ∪
        job.program.reached f t := by
  obtain ⟨arrived, hcompletes, -⟩ :=
    (interleaving ht hstore hsteps hfinished).completes ht hf hstore hfailure
  refine ⟨fun i => ?_, fun i => ?_⟩
  · rw [← ActiveSet.next_succ]
    exact hcompletes.store.has_next i
  · rw [ActiveSet.next_eq_current_succ,
      ← Program.active_after_eq hf hcompletes.flawless hcompletes.perm]
    exact hcompletes.store.has_current i

end

end WordCrew

/-- The workers of a run in a superstep `t` before which the store holds some frame, for every
    interleaving of their actions on single words.

    At any time each worker has executed the first of the active nodes of its partition, in
    ascending order; the value and the messages of the node that it finds next are there, and are
    those of the frame; and it can go on until it is done. When all are done without a failure, each
    has executed exactly the nodes of its partition that were active, every active node has been
    executed by exactly one worker, no bit is left of the active nodes of superstep `t`, and those
    of the next one are the nodes that were executed and did not halt, and those that were sent a
    message. -/
theorem executed_exactly_once [Memory.Allocator] {r : Run W V M} {tracker : Tracker T}
    {state state' : T} {d : Driver V M T} {workers : List Worker}
    (hprepare : r.prepare tracker state = .ok (d, workers)) {t : Nat} {f : Frame V M}
    (hproper : f.Proper r.program) {store : NodeStore V M} (hstore : store.Holds r.program t f)
    {x : WordCrew V M T} (hsteps : Relation.ReflTransGen (WordCrew.Step (r.job tracker) t workers)
      (.start store state') x) :
    (∀ k w, workers[k]? = some w →
      (x.scans k).executed <+:
        (store.active.current t).left w.partition.start w.partition.stop ∧
      (∀ nodes i rest, (x.scans k).hand.stage = .between nodes →
        (x.shared.store.active.current t).move (x.scans k).walk = .member i rest →
          x.shared.store.values.viewGet? w.view i = some (f.value i) ∧
            x.shared.store.mail.waiting? t i = some (f.inbox i).toArray) ∧
      ((∀ failed, (x.scans k).hand.stage ≠ .done failed) →
        ∃ y s, w.actWord (r.job tracker) t (x.scans k) x.shared = some (y, s))) ∧
    (x.crew.Finished workers → x.shared.failure = none →
      (∀ k w, workers[k]? = some w → (x.scans k).executed.Pairwise (· < ·) ∧
        ∀ i, i ∈ (x.scans k).executed ↔
          i ∈ w.partition.nodes ∧ (store.active.current t).Has i) ∧
      (∀ i, (store.active.current t).Has i →
        ∃! k, k < workers.length ∧ i ∈ (x.scans k).executed) ∧
      (∀ i, ¬ (x.shared.store.active.current t).Has i) ∧
      ∀ i, (x.shared.store.active.next t).Has i ↔
        i ∈ (f.active.filter fun i => (r.program.outcome f t i).halt = false) ∪
          r.program.reached f t) := by
  have ht : Team (r.job tracker).program workers := (r.prepare_spec hprepare).1
  have hshare : ∀ w : Worker, (r.job tracker).program.share f w =
      (store.active.current t).left w.partition.start w.partition.stop := fun w =>
    Program.share_eq_left hstore.has_current
  refine ⟨fun k w hw => ⟨?_, ?_, ?_⟩, fun hfinished hfailure => ⟨fun k w hw => ?_, ?_, ?_⟩⟩
  · rw [← hshare]
    exact WordCrew.executed_le ht hstore hsteps hw
  · intro nodes i rest hstage hfound
    exact WordCrew.present ht hstore hsteps hw hstage hfound
  · exact WordCrew.exists_action ht hstore hsteps hw
  · rw [WordCrew.executed_eq ht hstore hsteps hfinished hfailure hw, hshare]
    refine ⟨Bitset.pairwise_left .., fun i => ?_⟩
    rw [Bitset.mem_left, Partition.mem_nodes, and_assoc]
  · intro i hi
    exact WordCrew.existsUnique_executed ht hproper hstore hsteps hfinished hfailure
      ((hstore.has_current i).1 hi)
  · have hbits := WordCrew.has_iff_of_finished ht hproper hstore hsteps hfinished hfailure
    exact hbits

/-- Two workers, one node each, act in turn: both read the word with the two nodes before either of
    them has cleared its own. -/
theorem executed_exactly_once_twoNodes :
    ∃ d workers, (twoNodesRun .min 2 rfl).prepare Tracker.silent () = .ok (d, workers) ∧
      ∃ x, Relation.ReflTransGen
          (WordCrew.Step ((twoNodesRun .min 2 rfl).job Tracker.silent) 0 workers)
          (.start d.store ()) x ∧
        x.crew.Finished workers ∧ x.shared.failure = none ∧
        (∃! k, k < workers.length ∧ 1 ∈ (x.scans k).executed) ∧
        ¬ (x.shared.store.active.current 0).Has 1 := by
  have hplay : ((twoNodesRun .min 2 rfl).prepare Tracker.silent ()).map (fun (d, workers) =>
      let x := WordCrew.follow ((twoNodesRun .min 2 rfl).job Tracker.silent) 0 workers
        (.start d.store ()) (List.replicate 9 [0, 1]).flatten
      decide (x.crew.Finished workers ∧ (d.store.active.current 0).Has 1)) = .ok true := by
    cbv
  obtain ⟨d, workers, hprepare⟩ : ∃ d workers,
      (twoNodesRun .min 2 rfl).prepare Tracker.silent () = .ok (d, workers) := ⟨_, _, rfl⟩
  rw [hprepare] at hplay
  obtain ⟨hfinished, hhas⟩ := of_decide_eq_true (Except.ok.inj hplay)
  obtain ⟨hteam, hstore, -⟩ := Run.prepare_spec _ hprepare
  have ht : Team ((twoNodesRun .min 2 rfl).job Tracker.silent).program workers := hteam
  have hsteps := WordCrew.steps_follow ((twoNodesRun .min 2 rfl).job Tracker.silent) 0 workers
    (.start d.store ()) (List.replicate 9 [0, 1]).flatten
  have hflawless : (twoNodesRun .min 2 rfl).program.Flawless
      (twoNodesRun .min 2 rfl).initialFrame 0 := by
    intro i hi
    have hlt : i < 2 := (twoNodesRun .min 2 rfl).initialNodes_lt hi
    interval_cases i <;> rfl
  have hfailure := (WordCrew.interleaving ht hstore hsteps hfinished).failure_eq_none ht hstore
    hflawless fun _ _ => rfl
  obtain ⟨-, hend⟩ := executed_exactly_once hprepare (Run.proper_initialFrame _) hstore hsteps
  obtain ⟨-, hunique, hclear, -⟩ := hend hfinished hfailure
  exact ⟨d, workers, hprepare, _, hsteps, hfinished, hfailure, hunique 1 hhas, hclear 1⟩

end Superstep
