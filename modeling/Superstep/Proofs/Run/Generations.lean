import Superstep.Proofs.Crew.InOrder
import Superstep.Proofs.Run.Course

/-!
# The two generations between supersteps

Mailboxes and active nodes are kept twice, for the even and for the odd supersteps. Between two
supersteps one of the two generations is in use, and the other one is ready to be filled: every step
discards the messages of its node, whatever it has made of them, and every worker removes its nodes.

Results:
* `generations_between_supersteps`: what both generations hold before every superstep.
-/

namespace Superstep

variable {W V M T : Type} [Message M]

/-- Before superstep `t` of a run, under every schedule: the mailboxes and the active nodes of the
    following superstep are empty, only active nodes have messages waiting, no bit stands for a
    number that is not a node, the driver knows the number of active nodes, and no mailbox has more
    than one message if messages are combined. -/
theorem generations_between_supersteps [Memory.Allocator] {r : Run W V M} {tracker : Tracker T}
    {schedule : Schedule (r.job tracker)} {state : T} {flag : TerminationFlag} {t : Nat}
    {d : Driver V M T} (h : r.after schedule state flag t = some d) :
    (∀ i < r.nodeCount, d.store.mail.waiting? (t + 1) i = some #[]) ∧
    (∀ i, ¬ (d.store.active.current (t + 1)).Has i) ∧
    (∀ i box, d.store.mail.waiting? t i = some box → box ≠ #[] →
      (d.store.active.current t).Has i) ∧
    (∀ i, r.nodeCount ≤ i → ∀ s, ¬ (d.store.active.current s).Has i) ∧
    d.activeNodes = (d.store.active.current t).count ∧
    (r.reduction.isCombining = true → ∀ s i box, d.store.mail.waiting? s i = some box →
      box.size ≤ 1) := by
  obtain ⟨f, hat⟩ := Run.exists_course h
  have hproper := hat.course.proper
  have hnext : ∀ i, ¬ (d.store.active.current (t + 1)).Has i := by
    intro i
    rw [← ActiveSet.next_eq_current_succ]
    exact hat.store.has_next i
  -- Every superstep uses the generation of superstep `t` or that of the following one.
  have hparity : ∀ s, s % 2 = t % 2 ∨ s % 2 = (t + 1) % 2 := by
    intro s
    omega
  have hlt : ∀ s i box, d.store.mail.waiting? s i = some box → i < r.nodeCount := by
    intro s i box hbox
    by_contra hge
    rw [Mailboxes.waiting?, (hat.store.mail.inboxes s).get?_of_le (Nat.not_lt.1 hge)] at hbox
    cases hbox
  have hinbox : ∀ i box, d.store.mail.waiting? t i = some box → box = (f.inbox i).toArray := by
    intro i box hbox
    rw [hat.store.inbox_eq i (hlt t i box hbox)] at hbox
    exact (Option.some.inj hbox).symm
  refine ⟨hat.store.outbox_eq, hnext, ?_, ?_, ?_, ?_⟩
  · intro i box hbox hne
    rw [hat.store.has_current]
    refine hproper.mem_active i fun hempty => hne ?_
    rw [hinbox i box hbox, hempty]
  · intro i hi s hhas
    rcases hparity s with heq | heq
    · rw [ActiveSet.current_congr _ heq] at hhas
      exact absurd (hat.store.current.lt_of_has i hhas) (Nat.not_lt.2 hi)
    · rw [ActiveSet.current_congr _ heq] at hhas
      exact hnext i hhas
  · rw [hat.activeNodes, ← hat.store.card_current, Bitset.count_eq_card hat.store.current]
    rfl
  · intro hcombining s i box hbox
    have hi := hlt s i box hbox
    rcases hparity s with heq | heq
    · rw [Mailboxes.waiting?_congr _ heq] at hbox
      rw [hinbox i box hbox, List.size_toArray]
      exact hproper.length_le hcombining i
    · rw [Mailboxes.waiting?_congr _ heq, hat.store.outbox_eq i hi] at hbox
      cases hbox
      exact Nat.zero_le 1

/-- Two workers, one node each, after one superstep: the labels that they have sent to each other
    wait in the generation of superstep 1, and that of superstep 2 is empty. -/
theorem generations_twoNodes :
    ∃ d, (twoNodesRun .min 2 rfl).after
        (.inOrder ((twoNodesRun .min 2 rfl).job Tracker.silent)) () .never 1 = some d ∧
      d.store.mail.waiting? 2 0 = some #[] ∧ ¬ (d.store.active.current 2).Has 1 ∧
      d.activeNodes = (d.store.active.current 1).count := by
  obtain ⟨d, hd⟩ := exists_after_twoNodesRun (h := rfl) ⟨_, _, rfl⟩
    (.inOrder ((twoNodesRun .min 2 rfl).job Tracker.silent))
  obtain ⟨hmail, hactive, -, -, hcount, -⟩ := generations_between_supersteps hd
  exact ⟨d, hd, hmail 0 (by decide), hactive 1, hcount⟩

end Superstep
