import Mathlib.Tactic
import Superstep.Proofs.Crew.Basic
import Superstep.Proofs.Message.Collect

/-!
# The machine that a run carries out

The machine has no storage and no workers. Between two supersteps it is in a `Frame`: a value and a
list of waiting messages for every node, and the set of the active nodes. In a superstep every
active node takes a step on what the frame holds for it, and the next frame is made of the outcomes
and of the messages in the order in which they arrive (`Program.after`). The machine itself lets
them arrive in the order of the senders (`Program.next`).

Results:
* `mem_active_after`: the nodes that are active in the next superstep.
* `Frame.Proper.after`: only active nodes have messages waiting, and at most one if messages are
  combined.
* `letters_of_failure?`: a node whose step does not fail sends all its messages, to nodes of the
  graph.
-/

namespace Superstep

/-- What the nodes hold between two supersteps. -/
structure Frame (V M : Type) where
  value : Nat → V
  inbox : Nat → List M
  active : Finset Nat

/-- What the machine depends on. -/
structure Program (W V M : Type) where
  graph : Graph W
  computation : Computation W V M
  reduction : Reduction M

/-- The machine that the workers of a run carry out. -/
def Job.program {W V M T : Type} (job : Job W V M T) : Program W V M :=
  ⟨job.graph, job.computation, job.reduction⟩

/-- The messages for node `v`, in the order of their arrival. -/
def arrivals {M : Type} (letters : List (NodeId × M)) (v : Nat) : List M :=
  (letters.filter fun l => l.1.index = v).map Prod.snd

namespace Attempt

variable {M : Type}

/-- The message of an attempt, with its target. -/
def letter? : Attempt M → Option (NodeId × M)
  | .message target m => some (target, m)
  | .breakOff _ _ => none

/-- What has become of a step after one more attempt. -/
def note (nodeCount : UInt64) (lost : Option SendFailure) : Attempt M → Option SendFailure
  | .message target _ =>
    if lost.isSome then lost else if target.val ≥ nodeCount then some (.unknownTarget target)
    else none
  | .breakOff fault unread => if unread || lost.isNone then some (.unreadable fault) else lost

end Attempt

namespace Program

variable {W V M : Type}

/-- The number of nodes. -/
def nodeCount (p : Program W V M) : Nat := p.graph.nodeCount.toNat

/-- The step of node `i` in superstep `t`. -/
def outcome (p : Program W V M) (f : Frame V M) (t i : Nat) : Outcome V M :=
  p.computation.step ⟨p.graph, .ofIndex i, t, f.value i, f.inbox i⟩

/-- The messages that node `i` sends, in order. -/
def letters (p : Program W V M) (f : Frame V M) (t i : Nat) : List (NodeId × M) :=
  (p.outcome f t i).sends.flatMap (Send.expand p.graph (.ofIndex i))

/-- What node `i` attempts to send. -/
def attempts (p : Program W V M) (f : Frame V M) (t i : Nat) : List (Attempt M) :=
  (p.outcome f t i).sends.flatMap (Send.attempts p.graph (.ofIndex i))

/-- The failure of the step of node `i`, if it fails. -/
def failure? (p : Program W V M) (f : Frame V M) (t i : Nat) : Option RunError :=
  Worker.failureOf? (.ofIndex i) t p.graph.nodeCount (p.outcome f t i).failure
    ((p.attempts f t i).foldl (Attempt.note p.graph.nodeCount) none)

/-- No active node fails. -/
def Flawless (p : Program W V M) (f : Frame V M) (t : Nat) : Prop :=
  ∀ i ∈ f.active, p.failure? f t i = none

/-- The active nodes in ascending order. -/
def nodes (p : Program W V M) (f : Frame V M) : List Nat :=
  (List.range p.nodeCount).filter (· ∈ f.active)

/-- The messages of a superstep, by ascending sender, each sender's in the order of its step. -/
def traffic (p : Program W V M) (f : Frame V M) (t : Nat) : List (NodeId × M) :=
  (p.nodes f).flatMap (p.letters f t)

variable [Message M]

/-- The frame after a superstep whose messages have arrived in the given order: only active nodes
    change their values, and a node is active if it has not voted to halt or has messages. -/
def after (p : Program W V M) (f : Frame V M) (t : Nat) (arrived : List (NodeId × M)) :
    Frame V M where
  value i := if i ∈ f.active then (p.outcome f t i).value else f.value i
  inbox v := p.reduction.collect (arrivals arrived v)
  active :=
    (f.active.filter fun i => (p.outcome f t i).halt = false) ∪
      (Finset.range p.nodeCount).filter fun v => p.reduction.collect (arrivals arrived v) ≠ []

/-- One superstep of the machine. -/
def next (p : Program W V M) (f : Frame V M) (t : Nat) : Frame V M := p.after f t (p.traffic f t)

/-- The frame after `k` supersteps. -/
def frame (p : Program W V M) (f : Frame V M) : Nat → Frame V M
  | 0 => f
  | k + 1 => p.next (p.frame f k) k

end Program

/-! ## Messages in the order of their arrival -/

section

variable {M : Type}

@[simp] theorem arrivals_nil (v : Nat) : arrivals ([] : List (NodeId × M)) v = [] := rfl

theorem arrivals_append (a b : List (NodeId × M)) (v : Nat) :
    arrivals (a ++ b) v = arrivals a v ++ arrivals b v := by
  simp [arrivals]

theorem arrivals_singleton (l : NodeId × M) (v : Nat) :
    arrivals [l] v = if l.1.index = v then [l.2] else [] := by
  unfold arrivals
  by_cases h : l.1.index = v <;> simp [h]

theorem mem_arrivals {letters : List (NodeId × M)} {v : Nat} {m : M} :
    m ∈ arrivals letters v ↔ ∃ l ∈ letters, l.1.index = v ∧ l.2 = m := by
  simp [arrivals, and_assoc]

theorem arrivals_ne_nil_iff {letters : List (NodeId × M)} {v : Nat} :
    arrivals letters v ≠ [] ↔ ∃ l ∈ letters, l.1.index = v := by
  unfold arrivals
  rw [Ne, List.map_eq_nil_iff, List.filter_eq_nil_iff]
  simp

theorem arrivals_perm {a b : List (NodeId × M)} (h : a.Perm b) (v : Nat) :
    (arrivals a v).Perm (arrivals b v) := (h.filter _).map _

end

/-! ## Messages that are left when they have been reduced -/

/-- The targets of messages. -/
def targets {M : Type} (letters : List (NodeId × M)) : Finset Nat :=
  (letters.map fun l => l.1.index).toFinset

/-- How many of the messages are left when they have been reduced. -/
def Reduction.left {M : Type} (r : Reduction M) (letters : List (NodeId × M)) : Nat :=
  if r.isCombining then (targets letters).card else letters.length

theorem mem_targets {M : Type} {letters : List (NodeId × M)} {v : Nat} :
    v ∈ targets letters ↔ ∃ l ∈ letters, l.1.index = v := by
  simp [targets]

theorem targets_perm {M : Type} {a b : List (NodeId × M)} (h : a.Perm b) :
    targets a = targets b := by
  ext v
  simp only [mem_targets, h.mem_iff]

theorem card_targets_le {M : Type} (letters : List (NodeId × M)) :
    (targets letters).card ≤ letters.length :=
  (List.toFinset_card_le _).trans_eq (List.length_map _)

theorem Reduction.left_of_combining {M : Type} {r : Reduction M} (h : r.isCombining = true)
    (letters : List (NodeId × M)) : r.left letters = (targets letters).card := if_pos h

theorem Reduction.left_of_not_combining {M : Type} {r : Reduction M} (h : r.isCombining = false)
    (letters : List (NodeId × M)) : r.left letters = letters.length := by
  rw [left, h]
  rfl

theorem Reduction.left_perm {M : Type} (r : Reduction M) {a b : List (NodeId × M)} (h : a.Perm b) :
    r.left a = r.left b := by
  unfold left
  rw [targets_perm h, h.length_eq]

/-- A message that has been reduced with another one is no longer there to be counted. -/
theorem Reduction.left_append_singleton {M : Type} [Message M] (r : Reduction M)
    (letters : List (NodeId × M)) (l : NodeId × M) :
    r.left (letters ++ [l]) + (if Mailboxes.delivery r
      (r.collect (arrivals letters l.1.index)).toArray = .combined then 1 else 0) =
        r.left letters + 1 := by
  unfold left Mailboxes.delivery
  cases h : r.isCombining with
  | false => simp
  | true =>
    have htargets : targets (letters ++ [l]) = insert l.1.index (targets letters) := by
      ext v
      simp only [mem_targets, Finset.mem_insert, List.mem_append, List.mem_singleton]
      constructor
      · rintro ⟨l', hl' | rfl, rfl⟩
        · exact .inr ⟨l', hl', rfl⟩
        · exact .inl rfl
      · rintro (rfl | ⟨l', hl', rfl⟩)
        · exact ⟨l, .inr rfl, rfl⟩
        · exact ⟨l', .inl hl', rfl⟩
    have hwaiting : (r.collect (arrivals letters l.1.index)).toArray.isEmpty = true ↔
        l.1.index ∉ targets letters := by
      rw [List.isEmpty_toArray, List.isEmpty_iff, Reduction.collect_eq_nil_iff, mem_targets,
        ← arrivals_ne_nil_iff, not_not]
    rw [htargets]
    by_cases hmem : l.1.index ∈ targets letters
    · have hbox : (r.collect (arrivals letters l.1.index)).toArray.isEmpty = false := by
        rw [Bool.eq_false_iff, Ne, hwaiting, not_not]
        exact hmem
      simp [hbox, Finset.insert_eq_of_mem hmem]
    · have hbox := hwaiting.2 hmem
      simp [hbox, Finset.card_insert_of_notMem hmem]

/-! ## Steps that do not fail -/

section

variable {W M : Type}

/-- What is attempted contains what is sent. -/
theorem filterMap_attempts (g : Graph W) (node : NodeId) (send : Send M) :
    (send.attempts g node).filterMap Attempt.letter? = send.expand g node := by
  match send with
  | .to target message => rfl
  | .toNeighbors message =>
    unfold Send.attempts Send.expand
    rw [List.filterMap_append, List.filterMap_map, List.filterMap_map]
    have hmessages : ∀ targets : List NodeId,
        targets.filterMap (Attempt.letter? ∘ fun target => .message target message) =
          targets.map fun target => (target, message) := by
      intro targets
      exact congrFun (List.filterMap_eq_map (f := fun target => (target, message))) targets
    have hfault : ∀ faults : List ReadFault,
        faults.filterMap (Attempt.letter? ∘ fun fault =>
          (.breakOff fault (g.neighbors node).isEmpty : Attempt M)) = [] := by
      intro faults
      rw [List.filterMap_eq_nil_iff]
      exact fun _ _ => rfl
    rw [hmessages, hfault, List.append_nil]

/-- Only a message to a node of the graph, sent while nothing has been lost, is not lost. -/
theorem note_eq_none_iff {n : UInt64} {lost : Option SendFailure} {a : Attempt M} :
    a.note n lost = none ↔
      lost = none ∧ ∃ target m, a = .message target m ∧ target.index < n.toNat := by
  have hlarge : ∀ target : NodeId, target.val ≥ n ↔ ¬ target.index < n.toNat := by
    intro target
    rw [ge_iff_le, UInt64.le_iff_toNat_le]
    exact Nat.not_lt.symm
  match a with
  | .message target m =>
    cases lost with
    | some f => simp [Attempt.note]
    | none =>
      by_cases hlt : target.index < n.toNat
      · simp [Attempt.note, hlarge, hlt]
      · simp [Attempt.note, hlarge, hlt]
  | .breakOff fault unread => cases lost <;> cases unread <;> simp [Attempt.note]

theorem foldl_note_eq_none {n : UInt64} {lost : Option SendFailure} {attempts : List (Attempt M)}
    (h : attempts.foldl (Attempt.note n) lost = none) :
    lost = none ∧ ∀ a ∈ attempts, ∃ target m, a = .message target m ∧ target.index < n.toNat := by
  induction attempts generalizing lost with
  | nil => exact ⟨h, fun a ha => by cases ha⟩
  | cons a attempts ih =>
    obtain ⟨hnote, hrest⟩ := ih h
    obtain ⟨hlost, ha⟩ := note_eq_none_iff.1 hnote
    exact ⟨hlost, List.forall_mem_cons.2 ⟨ha, hrest⟩⟩

end

namespace Worker

theorem lost_of_failureOf? {node : NodeId} {t : Nat} {n : UInt64} {fault : Option StepFailure}
    {lost : Option SendFailure} (h : failureOf? node t n fault lost = none) :
    fault = none ∧ lost = none := by
  cases lost with
  | none =>
    cases fault with
    | none => exact ⟨rfl, rfl⟩
    | some f => cases h
  | some l => cases l <;> cases fault <;> cases h

end Worker

namespace Program

variable {W V M : Type} (p : Program W V M) (f : Frame V M) (t i : Nat)

theorem letters_eq : p.letters f t i = (p.attempts f t i).filterMap Attempt.letter? := by
  unfold letters attempts
  rw [List.filterMap_flatMap]
  refine List.flatMap_congr ?_
  intro send _
  rw [filterMap_attempts]

variable {p f t i}

theorem letters_of_failure? (h : p.failure? f t i = none) :
    ∀ l ∈ p.letters f t i, l.1.index < p.nodeCount := by
  intro l hl
  rw [letters_eq, List.mem_filterMap] at hl
  obtain ⟨a, ha, hal⟩ := hl
  obtain ⟨target, m, rfl, hlt⟩ := (foldl_note_eq_none (Worker.lost_of_failureOf? h).2).2 a ha
  cases hal
  exact hlt

theorem mem_nodes : i ∈ p.nodes f ↔ i < p.nodeCount ∧ i ∈ f.active := by
  simp [nodes]

theorem traffic_lt (h : p.Flawless f t) : ∀ l ∈ p.traffic f t, l.1.index < p.nodeCount := by
  intro l hl
  obtain ⟨i, hi, hl⟩ := List.mem_flatMap.1 hl
  exact letters_of_failure? (h i (mem_nodes.1 hi).2) l hl

end Program

/-! ## Frames -/

namespace Frame

/-- A frame as it stands between two supersteps: only nodes of the graph are active, only active
    nodes have messages, and each has at most one if messages are combined. -/
structure Proper {W V M : Type} (p : Program W V M) (f : Frame V M) : Prop where
  active_lt : ∀ i ∈ f.active, i < p.nodeCount
  mem_active : ∀ i, f.inbox i ≠ [] → i ∈ f.active
  length_le : p.reduction.isCombining = true → ∀ i, (f.inbox i).length ≤ 1

end Frame

namespace Program

variable {W V M : Type} [Message M] {p : Program W V M} {f : Frame V M} {t v : Nat}
  {arrived : List (NodeId × M)}

theorem mem_active_after : v ∈ (p.after f t arrived).active ↔
    (v ∈ f.active ∧ (p.outcome f t v).halt = false) ∨
      (v < p.nodeCount ∧ ∃ l ∈ arrived, l.1.index = v) := by
  unfold after
  rw [Finset.mem_union, Finset.mem_filter, Finset.mem_filter, Finset.mem_range, Ne,
    Reduction.collect_eq_nil_iff, ← Ne, arrivals_ne_nil_iff]

theorem active_after_perm {arrived' : List (NodeId × M)} (h : arrived.Perm arrived') :
    (p.after f t arrived).active = (p.after f t arrived').active := by
  ext v
  simp only [mem_active_after, h.mem_iff]

end Program

namespace Frame

variable {W V M : Type} [Message M] {p : Program W V M} {f : Frame V M} {t : Nat}

theorem Proper.after (hf : f.Proper p) {arrived : List (NodeId × M)}
    (harrived : ∀ l ∈ arrived, l.1.index < p.nodeCount) : (p.after f t arrived).Proper p := by
  refine ⟨?_, ?_, fun h v => Reduction.length_collect_le h _⟩
  · intro i hi
    rcases Program.mem_active_after.1 hi with ⟨hi, -⟩ | ⟨hi, -⟩
    · exact hf.active_lt i hi
    · exact hi
  · intro v hv
    have hletters : arrivals arrived v ≠ [] := fun h => hv (Reduction.collect_eq_nil_iff.2 h)
    obtain ⟨l, hl, rfl⟩ := arrivals_ne_nil_iff.1 hletters
    exact Program.mem_active_after.2 (.inr ⟨harrived l hl, l, hl, rfl⟩)

theorem Proper.next (hf : f.Proper p) (h : p.Flawless f t) : (p.next f t).Proper p :=
  hf.after (Program.traffic_lt h)

end Frame

end Superstep
