import Superstep.Proofs.Crew.Superstep

/-!
# Messages in the order in which they arrive

The workers of a superstep put their messages into the mailboxes of the next superstep while the
others do the same. An execution of the workers is followed together with the list of these messages
(`Crew.Posts`), so that it can be said which one has come first.

Results:
* `Crew.Posts.completes`: without a failure, the list has all messages of the superstep.
* `Crew.found_of_steps`: a worker that takes up a node finds the messages that waited for it when
  the superstep began.
-/

namespace Superstep

variable {W V M T : Type}

namespace Crew

variable [Message M]

/-- An execution of the workers of a superstep, and the messages that they have put into mailboxes,
    in the order in which these have arrived. -/
inductive Posts (job : Job W V M T) (t : Nat) (workers : List Worker) (store : NodeStore V M)
    (tracker : T) : Crew V M T → List (NodeId × M) → Prop
  | start : Posts job t workers store tracker (.start store tracker) []
  | act {c : Crew V M T} {letters : List (NodeId × M)} {k : Nat} {w : Worker} {h : Hand V M}
      {s : Shared V M T} :
    Posts job t workers store tracker c letters → workers[k]? = some w →
      w.act job t (c.hands k) c.shared = some (h, s) →
      Posts job t workers store tracker ⟨Function.update c.hands k h, s⟩
        (letters ++ ((c.hands k).posting? job.graph.nodeCount).toList)

variable {job : Job W V M T} {t : Nat} {workers : List Worker} {store : NodeStore V M} {tracker : T}
  {c : Crew V M T} {letters : List (NodeId × M)} {f : Frame V M}

theorem Posts.steps (h : Posts job t workers store tracker c letters) :
    Relation.ReflTransGen (Step job t workers) (.start store tracker) c := by
  induction h with
  | start => exact .refl
  | act _ hw hact ih => exact ih.tail (.act hw hact)

theorem exists_posts (h : Relation.ReflTransGen (Step job t workers) (.start store tracker) c) :
    ∃ letters, Posts job t workers store tracker c letters := by
  induction h with
  | refl => exact ⟨[], .start⟩
  | tail _ hstep ih =>
    obtain ⟨letters, hletters⟩ := ih
    obtain ⟨hw, hact⟩ := hstep
    exact ⟨_, hletters.act hw hact⟩

section

variable (h : Posts job t workers store tracker c letters) (ht : Team job.program workers)
  (hstore : store.Holds job.program t f)
include h ht hstore

/-- The invariant of a superstep holds for a history in which just these messages have arrived. -/
theorem Posts.exists_midway : ∃ g, Midway job t f workers g c ∧ g.arrived = letters := by
  induction h with
  | start => exact ⟨_, midway_start store tracker hstore, rfl⟩
  | act _ hw hact ih =>
    obtain ⟨g, hm, harrived⟩ := ih
    obtain ⟨g', hm', hextended⟩ := hm.extend ht hw hact
    exact ⟨g', hm', by rw [hextended, harrived]⟩

/-- Without a failure the machine has carried out its superstep, with the messages arriving in this
    order. With one worker this is the order of the machine. -/
theorem Posts.completes (hf : f.Proper job.program) (hfinished : c.Finished workers)
    (hfailure : c.shared.failure = none) :
    (c.round workers).Completes job.program t f letters ∧
      (workers.length = 1 → letters = job.program.traffic f t) := by
  obtain ⟨g, hm, rfl⟩ := h.exists_midway ht hstore
  have hended := hm.ended (midway_of_steps ht hstore h.steps).2 ht hf hfinished hfailure
  exact ⟨hended.completes, hended.arrived_eq⟩

end

/-- A worker that takes up a node finds its value, and the messages that waited for it when the
    superstep began: no other message of the superstep has got among them. -/
theorem found_of_steps
    (hsteps : Relation.ReflTransGen (Step job t workers) (.start store tracker) c)
    (ht : Team job.program workers) (hstore : store.Holds job.program t f) {k i : Nat} {w : Worker}
    {nodes : List Nat} (hw : workers[k]? = some w)
    (hstage : (c.hands k).stage = .between (i :: nodes)) :
    c.shared.store.values.viewGet? w.view i = some (f.value i) ∧
      c.shared.store.mail.waiting? t i = some (f.inbox i).toArray := by
  obtain ⟨⟨g, hm⟩, -⟩ := midway_of_steps ht hstore hsteps
  have hinvariant := hm.workerInvariant ht hw (by rw [hstage]; nofun)
  have hatStage := hinvariant.atStage
  rw [hstage] at hatStage
  exact hinvariant.present_of_upTo hatStage

end Crew

end Superstep
