import Superstep.Proofs.Crew.InOrder
import Superstep.Proofs.Run.Course

/-!
# Messages and active nodes are accounted for

Every worker keeps counts of its own, and several workers may be the first to reach a mailbox or to
wake up a node. All the same the counts of a superstep are those of what waits afterwards: a message
that is sent either waits or has been reduced with one that does, and a node that is active next is
counted once, whoever has woken it up.

Results:
* `Reduction.sum_length_collect`: the mailboxes hold the messages that are left.
* `accounts_of_superstep`: the counts of every superstep of a run.
-/

namespace Superstep

/-- The number of messages that wait in the mailboxes of the first `nodeCount` nodes in superstep
    `t`. -/
def Mailboxes.pending {M : Type} (b : Mailboxes M) (nodeCount t : Nat) : Nat :=
  ∑ v ∈ Finset.range nodeCount, ((b.waiting? t v).getD #[]).size

/-! ## Messages by their targets -/

section

variable {M : Type}

theorem arrivals_cons (l : NodeId × M) (letters : List (NodeId × M)) (v : Nat) :
    arrivals (l :: letters) v = (if l.1.index = v then [l.2] else []) ++ arrivals letters v := by
  rw [← List.singleton_append, arrivals_append, arrivals_singleton]

theorem sum_length_arrivals {letters : List (NodeId × M)} {n : Nat}
    (h : ∀ l ∈ letters, l.1.index < n) :
    ∑ v ∈ Finset.range n, (arrivals letters v).length = letters.length := by
  induction letters with
  | nil => simp
  | cons l letters ih =>
    obtain ⟨hl, hrest⟩ := List.forall_mem_cons.1 h
    have hone : ∑ v ∈ Finset.range n, (if l.1.index = v then [l.2] else []).length = 1 := by
      simp only [apply_ite List.length, List.length_singleton, List.length_nil]
      rw [Finset.sum_ite_eq, if_pos (Finset.mem_range.2 hl)]
    simp only [arrivals_cons, List.length_append]
    rw [Finset.sum_add_distrib, hone, ih hrest, List.length_cons]
    omega

theorem mem_targets_iff_arrivals {letters : List (NodeId × M)} {v : Nat} :
    v ∈ targets letters ↔ arrivals letters v ≠ [] := by
  rw [mem_targets, arrivals_ne_nil_iff]

/-- The mailboxes hold the messages that are left when they have been reduced. -/
theorem Reduction.sum_length_collect [Message M] (r : Reduction M) {letters : List (NodeId × M)}
    {n : Nat} (h : ∀ l ∈ letters, l.1.index < n) :
    ∑ v ∈ Finset.range n, (r.collect (arrivals letters v)).length = r.left letters := by
  cases hcombining : r.isCombining with
  | false =>
    simp only [collect_of_not_combining hcombining]
    rw [sum_length_arrivals h, left_of_not_combining hcombining]
  | true =>
    have hbox : ∀ v, (r.collect (arrivals letters v)).length =
        if v ∈ targets letters then 1 else 0 := by
      intro v
      simp only [mem_targets_iff_arrivals]
      cases arrivals letters v with
      | nil => simp
      | cons m rest => simp [collect_cons_of_combining hcombining]
    have hsubset : targets letters ⊆ Finset.range n := by
      intro v hv
      obtain ⟨l, hl, rfl⟩ := mem_targets.1 hv
      exact Finset.mem_range.2 (h l hl)
    simp only [hbox]
    rw [Finset.sum_ite_mem, Finset.inter_eq_right.2 hsubset, Finset.sum_const, smul_eq_mul,
      mul_one, left_of_combining hcombining]

end

/-! ## Messages by their senders -/

namespace Program

variable {W V M : Type} {p : Program W V M} {f : Frame V M} {t : Nat}

theorem toFinset_nodes (hf : f.Proper p) : (p.nodes f).toFinset = f.active := by
  ext i
  rw [List.mem_toFinset, mem_nodes]
  exact ⟨And.right, fun hi => ⟨hf.active_lt i hi, hi⟩⟩

theorem length_traffic (hf : f.Proper p) :
    (p.traffic f t).length = ∑ i ∈ f.active, (p.letters f t i).length := by
  have hnodup : (p.nodes f).Nodup := List.nodup_range.filter _
  unfold traffic
  rw [List.length_flatMap, ← List.sum_toFinset _ hnodup, toFinset_nodes hf]

theorem mem_traffic (hf : f.Proper p) {l : NodeId × M} :
    l ∈ p.traffic f t ↔ ∃ i ∈ f.active, l ∈ p.letters f t i := by
  unfold traffic
  rw [List.mem_flatMap]
  constructor
  · rintro ⟨i, hi, hl⟩
    exact ⟨i, (mem_nodes.1 hi).2, hl⟩
  · rintro ⟨i, hi, hl⟩
    exact ⟨i, mem_nodes.2 ⟨hf.active_lt i hi, hi⟩, hl⟩

/-- The nodes to which the active nodes send messages. -/
def reached (p : Program W V M) (f : Frame V M) (t : Nat) : Finset Nat :=
  f.active.biUnion fun i => targets (p.letters f t i)

theorem targets_traffic (hf : f.Proper p) : targets (p.traffic f t) = p.reached f t := by
  ext v
  unfold reached
  simp only [mem_targets, Finset.mem_biUnion, mem_traffic hf]
  constructor
  · rintro ⟨l, ⟨i, hi, hl⟩, rfl⟩
    exact ⟨i, hi, l, hl, rfl⟩
  · rintro ⟨i, hi, l, hl, rfl⟩
    exact ⟨l, ⟨i, hi, hl⟩, rfl⟩

/-- The nodes that are active next: those that do not halt and those that are sent a message. -/
theorem active_after_eq [Message M] (hf : f.Proper p) (hflawless : p.Flawless f t)
    {arrived : List (NodeId × M)} (hperm : arrived.Perm (p.traffic f t)) :
    (p.after f t arrived).active =
      (f.active.filter fun i => (p.outcome f t i).halt = false) ∪ p.reached f t := by
  ext v
  rw [mem_active_after, Finset.mem_union, Finset.mem_filter, ← targets_traffic hf, mem_targets]
  simp only [hperm.mem_iff]
  refine or_congr_right ⟨And.right, ?_⟩
  rintro ⟨l, hl, rfl⟩
  exact ⟨traffic_lt hflawless l hl, l, hl, rfl⟩

end Program

/-! ## Runs -/

section

theorem NodeStore.Holds.pending_eq {W V M : Type} {p : Program W V M} {t : Nat} {f : Frame V M}
    {s : NodeStore V M} (h : s.Holds p t f) :
    s.mail.pending p.nodeCount t = ∑ v ∈ Finset.range p.nodeCount, (f.inbox v).length := by
  refine Finset.sum_congr rfl fun v hv => ?_
  rw [h.inbox_eq v (Finset.mem_range.1 hv), Option.getD_some, List.size_toArray]

variable {W V M T : Type} [Message M] {r : Run W V M} {tracker : Tracker T}

/-- The counts of superstep `t` of a run, under every schedule. The store before the superstep holds
    a frame, and the superstep has carried out the steps of its active nodes. The messages sent are
    those of their steps, one for each relationship when a step sends to all neighbours. All of them
    wait for superstep `t + 1` except those that have been combined: none without a combiner, and
    with one all but one for each node that is sent a message. The nodes counted as active next are
    those that were executed and did not halt and those that were sent a message, each once. -/
theorem accounts_of_superstep [Memory.Allocator] {schedule : Schedule (r.job tracker)} {state : T}
    {flag : TerminationFlag} {t : Nat} {d d' : Driver V M T}
    (h : r.after schedule state flag t = some d)
    (h' : r.after schedule state flag (t + 1) = some d') :
    ∃ f stats, d.store.Holds r.program t f ∧ d'.supersteps = d.supersteps.push stats ∧
      stats.superstep = t ∧
      d'.store.mail.pending r.nodeCount (t + 1) + stats.messagesCombined = stats.messagesSent ∧
      stats.messagesSent = ∑ i ∈ f.active, (r.program.letters f t i).length ∧
      (r.reduction.isCombining = false → stats.messagesCombined = 0) ∧
      (r.reduction.isCombining = true →
        stats.messagesSent - stats.messagesCombined = (r.program.reached f t).card) ∧
      stats.nextActiveNodes =
        ((f.active.filter fun i => (r.program.outcome f t i).halt = false) ∪
          r.program.reached f t).card := by
  obtain ⟨f, arrived, hat, hflawless, hperm, hpush, hat'⟩ := Run.after_succ_spec h h'
  have hproper := hat.course.proper
  have hlt : ∀ l ∈ arrived, l.1.index < r.program.nodeCount := fun l hl =>
    Program.traffic_lt hflawless l (hperm.mem_iff.1 hl)
  have hpending : d'.store.mail.pending r.nodeCount (t + 1) =
      r.reduction.left (r.program.traffic f t) := by
    rw [← r.reduction.left_perm hperm, ← r.reduction.sum_length_collect hlt]
    exact hat'.store.pending_eq
  have hle : r.reduction.left (r.program.traffic f t) ≤ (r.program.traffic f t).length := by
    unfold Reduction.left
    split
    · exact card_targets_le _
    · exact le_rfl
  refine ⟨f, r.program.stats f t, hat.store, hpush, rfl, ?_, ?_, ?_, ?_, ?_⟩
  · rw [hpending]
    exact Nat.add_sub_cancel' hle
  · exact Program.length_traffic hproper
  · intro hkeep
    show (r.program.traffic f t).length - r.reduction.left (r.program.traffic f t) = 0
    rw [Reduction.left_of_not_combining hkeep, Nat.sub_self]
  · intro hcombining
    show (r.program.traffic f t).length -
      ((r.program.traffic f t).length - r.reduction.left (r.program.traffic f t)) = _
    rw [Nat.sub_sub_self hle, Reduction.left_of_combining hcombining,
      Program.targets_traffic hproper]
  · exact congrArg Finset.card (Program.active_after_eq hproper hflawless .rfl)

/-- On two nodes that tell each other their label two messages are sent, both of them wait, and both
    nodes are active next. -/
theorem accounts_twoNodes :
    ∃ d d' stats, (twoNodesRun .min 2 rfl).after
        (.inOrder ((twoNodesRun .min 2 rfl).job Tracker.silent)) () .never 0 = some d ∧
      (twoNodesRun .min 2 rfl).after
        (.inOrder ((twoNodesRun .min 2 rfl).job Tracker.silent)) () .never 1 = some d' ∧
      d'.supersteps = d.supersteps.push stats ∧ stats.superstep = 0 ∧ stats.messagesSent = 2 ∧
      d'.store.mail.pending 2 1 = 2 ∧ stats.messagesCombined = 0 ∧ stats.nextActiveNodes = 2 := by
  obtain ⟨d, workers, hprepare⟩ : ∃ d workers,
      (twoNodesRun .min 2 rfl).prepare Tracker.silent () = .ok (d, workers) := ⟨_, _, rfl⟩
  have hd : (twoNodesRun .min 2 rfl).after
      (.inOrder ((twoNodesRun .min 2 rfl).job Tracker.silent)) () .never 0 = some d :=
    Run.after_zero hprepare
  obtain ⟨d', hd'⟩ := exists_after_twoNodesRun (h := rfl) ⟨_, _, rfl⟩
    (.inOrder ((twoNodesRun .min 2 rfl).job Tracker.silent))
  obtain ⟨f, stats, -, hpush, hsuperstep, hpending, -⟩ := accounts_of_superstep hd hd'
  have hcounted : ((twoNodesRun .min 2 rfl).after
      (.inOrder ((twoNodesRun .min 2 rfl).job Tracker.silent)) () .never 1).map (fun d =>
        (d.store.mail.pending 2 1,
          d.supersteps.back?.map fun stats => (stats.messagesSent, stats.nextActiveNodes))) =
      some (2, some (2, 2)) := by
    decide +kernel
  simp only [hd', hpush, Option.map_some, Array.back?_push, Option.some.injEq,
    Prod.mk.injEq] at hcounted
  obtain ⟨hwaiting, hsent, hactive⟩ := hcounted
  have hcount : (twoNodesRun .min 2 rfl).nodeCount = 2 := rfl
  rw [hcount, Nat.zero_add, hwaiting, hsent] at hpending
  exact ⟨d, d', stats, hd, hd', hpush, hsuperstep, hsent, hwaiting, by omega, hactive⟩

end

end Superstep
