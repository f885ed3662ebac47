import Superstep.Proofs.Machine.Frame
import Superstep.Proofs.Storage.Bitset

/-!
# What the operations of workers do to the storage

`NodeStore.Holds` says that the storage holds a frame between two supersteps. While the workers are
at work it holds neither the old frame nor the new one: `NodeStore.Midway` says what it holds after
a `History`, which records the steps that the workers have taken and the messages they have sent.

Results:
* `Midway.begin`: a worker takes a step on the value and the messages that the frame has for its
  node, and stores the new value.
* `Midway.post`, `Midway.finish`, `Midway.clear`: what a message, the end of a step and the end of a
  worker do to the storage.
* `Holds.midway`, `Midway.holds`: between two supersteps the storage holds a frame.
-/

namespace Superstep

/-! ## Histories -/

/-- What the workers of a superstep have done so far. -/
structure History (M : Type) where
  /-- The nodes whose steps each worker has begun. -/
  begun : Nat → List Nat
  /-- The nodes that each worker has counted. -/
  finished : Nat → List Nat
  /-- The messages in the order of their arrival, each with the worker that has sent it. -/
  log : List (Nat × NodeId × M)

namespace History

variable {M : Type}

/-- Nothing has been done. -/
def none : History M := ⟨fun _ => [], fun _ => [], []⟩

/-- Worker `k` begins the step of node `i`. -/
def begin (g : History M) (k i : Nat) : History M :=
  { g with begun := Function.update g.begun k (g.begun k ++ [i]) }

/-- Worker `k` counts node `i`. -/
def finish (g : History M) (k i : Nat) : History M :=
  { g with finished := Function.update g.finished k (g.finished k ++ [i]) }

/-- Worker `k` sends a message. -/
def post (g : History M) (k : Nat) (l : NodeId × M) : History M :=
  { g with log := g.log ++ [(k, l)] }

/-- The messages that have been sent, in the order of their arrival. -/
def arrived (g : History M) : List (NodeId × M) := g.log.map Prod.snd

/-- The messages that worker `k` has sent. -/
def sent (g : History M) (k : Nat) : List (NodeId × M) :=
  (g.log.filter fun l => l.1 = k).map Prod.snd

/-- Some worker has begun the step of node `i`. -/
def Begun (g : History M) (i : Nat) : Prop := ∃ k, i ∈ g.begun k

/-- Some worker has counted node `i`. -/
def Finished (g : History M) (i : Nat) : Prop := ∃ k, i ∈ g.finished k

theorem exists_mem_update {f : Nat → List Nat} {k i j : Nat} :
    (∃ k', j ∈ Function.update f k (f k ++ [i]) k') ↔ j = i ∨ ∃ k', j ∈ f k' := by
  constructor
  · rintro ⟨k', hk'⟩
    by_cases h : k' = k
    · rw [h, Function.update_self, List.mem_append, List.mem_singleton] at hk'
      exact hk'.elim (fun h => .inr ⟨k, h⟩) .inl
    · rw [Function.update_of_ne h] at hk'
      exact .inr ⟨k', hk'⟩
  · rintro (rfl | ⟨k', hk'⟩)
    · exact ⟨k, by simp⟩
    · by_cases h : k' = k
      · exact ⟨k, by simp [← h, hk']⟩
      · exact ⟨k', by rwa [Function.update_of_ne h]⟩

theorem begun_begin (g : History M) (k i j : Nat) : (g.begin k i).Begun j ↔ j = i ∨ g.Begun j :=
  exists_mem_update

theorem finished_finish (g : History M) (k i j : Nat) :
    (g.finish k i).Finished j ↔ j = i ∨ g.Finished j :=
  exists_mem_update

@[simp] theorem begun_begin_self (g : History M) (k i : Nat) :
    (g.begin k i).begun k = g.begun k ++ [i] := Function.update_self ..

@[simp] theorem finished_finish_self (g : History M) (k i : Nat) :
    (g.finish k i).finished k = g.finished k ++ [i] := Function.update_self ..

theorem begun_begin_of_ne (g : History M) {j k : Nat} (h : j ≠ k) (i : Nat) :
    (g.begin k i).begun j = g.begun j := Function.update_of_ne h ..

theorem finished_finish_of_ne (g : History M) {j k : Nat} (h : j ≠ k) (i : Nat) :
    (g.finish k i).finished j = g.finished j := Function.update_of_ne h ..

@[simp] theorem arrived_post (g : History M) (k : Nat) (l : NodeId × M) :
    (g.post k l).arrived = g.arrived ++ [l] := by
  simp [arrived, post]

@[simp] theorem arrived_begin (g : History M) (k i : Nat) : (g.begin k i).arrived = g.arrived := rfl

@[simp] theorem arrived_finish (g : History M) (k i : Nat) :
    (g.finish k i).arrived = g.arrived := rfl

@[simp] theorem sent_post_self (g : History M) (k : Nat) (l : NodeId × M) :
    (g.post k l).sent k = g.sent k ++ [l] := by
  simp [sent, post]

theorem sent_post_of_ne (g : History M) {j k : Nat} (h : j ≠ k) (l : NodeId × M) :
    (g.post k l).sent j = g.sent j := by
  simp [sent, post, h.symm]

end History

/-! ## The outbox of a worker -/

/-- The number of members below `n`. -/
def Bitset.card (s : Bitset) (n : Nat) : Nat := ((Finset.range n).filter s.Has).card

namespace Outbox

variable {M : Type} {o : Outbox M} {n : Nat}

/-- Node `i` has been woken up, and counted if it was not yet awake. -/
structure Wakes (n i : Nat) (o o' : Outbox M) : Prop where
  sized : o'.next.Sized n
  has : ∀ j, o'.next.Has j ↔ j = i ∨ o.next.Has j
  activated : o'.tally.activated + o.next.card n = o.tally.activated + o'.next.card n

theorem activate_frame (o : Outbox M) (i : Nat) :
    (o.activate i).mail = o.mail ∧ (o.activate i).tally.processed = o.tally.processed ∧
      (o.activate i).tally.sent = o.tally.sent ∧
        (o.activate i).tally.combined = o.tally.combined := by
  unfold activate
  split <;> exact ⟨rfl, rfl, rfl, rfl⟩

theorem wakes_activate (h : o.next.Sized n) {i : Nat} (hi : i < n) :
    Wakes n i o (o.activate i) := by
  unfold activate
  by_cases hhas : o.next.Has i
  · rw [h.contains?_eq hi, decide_eq_true hhas]
    refine ⟨h, fun j => ⟨.inr, ?_⟩, rfl⟩
    rintro (rfl | hj)
    · exact hhas
    · exact hj
  · rw [h.contains?_eq hi, decide_eq_false hhas]
    refine ⟨h.insert hi, fun j => Bitset.has_insert h hi j, ?_⟩
    have hinsert : (Finset.range n).filter (o.next.insert i).Has =
        insert i ((Finset.range n).filter o.next.Has) := by
      ext j
      rw [Finset.mem_filter, Finset.mem_insert, Finset.mem_filter, Finset.mem_range,
        Bitset.has_insert h hi j]
      constructor
      · rintro ⟨hj, rfl | hhas⟩
        · exact .inl rfl
        · exact .inr ⟨hj, hhas⟩
      · rintro (rfl | ⟨hj, hhas⟩)
        · exact ⟨hi, .inl rfl⟩
        · exact ⟨hj, .inr hhas⟩
    show o.tally.activated + 1 + _ = o.tally.activated + _
    unfold Bitset.card
    rw [hinsert, Finset.card_insert_of_notMem (by simp [hhas])]
    omega

/-- A node that has been executed stays awake unless it votes to halt. -/
theorem halt_spec (h : o.next.Sized n) {i : Nat} (hi : i < n) (halt : Bool) {o' : Outbox M}
    (ho' : (if halt then o else o.activate i) = o') :
    o'.mail = o.mail ∧ o'.tally.processed = o.tally.processed ∧ o'.tally.sent = o.tally.sent ∧
      o'.tally.combined = o.tally.combined ∧ o'.next.Sized n ∧
      (∀ j, o'.next.Has j ↔ (j = i ∧ halt = false) ∨ o.next.Has j) ∧
      o'.tally.activated + o.next.card n = o.tally.activated + o'.next.card n := by
  subst ho'
  cases halt with
  | true => exact ⟨rfl, rfl, rfl, rfl, h, fun j => by simp, rfl⟩
  | false =>
    obtain ⟨hmail, hprocessed, hsent, hcombined⟩ := o.activate_frame i
    have hwakes := wakes_activate h hi
    exact ⟨hmail, hprocessed, hsent, hcombined, hwakes.sized, fun j => by simp [hwakes.has j],
      hwakes.activated⟩

theorem failure_settle (o : Outbox M) (target : NodeId) (d : Delivery) :
    (o.settle target d).failure = o.failure := by
  unfold settle
  rw [failure_activate]

variable [Message M]

/-- A message to a node of the graph is put into its mailbox, if there is room, and wakes it up. -/
theorem sendTo_eq {c : Channel M} (ho : o.failure = none) {target : NodeId}
    (hlt : target.index < c.nodeCount.toNat) {box : Array M}
    (hbox : o.mail.waiting? (c.superstep + 1) target.index = some box)
    (hroom : Mailboxes.delivery c.reduction box = .stored → c.grows o.mail target.index) (m : M) :
    o.sendTo c target m =
      settle ⟨o.mail.modify (c.superstep + 1) target.index (Mailboxes.deliver c.reduction m),
        o.next, o.tally, none⟩ target (Mailboxes.delivery c.reduction box) := by
  obtain ⟨mail, next, tally, failure⟩ := o
  obtain rfl : failure = none := ho
  have hvalid : ¬ target.val ≥ c.nodeCount := by
    rw [ge_iff_le, UInt64.le_iff_toNat_le]
    exact Nat.not_le.2 hlt
  have hroom' : (decide (Mailboxes.delivery c.reduction box = .stored) &&
      !c.grows mail target.index) = false := by
    simpa using hroom
  unfold sendTo Mailboxes.send
  simp only [Option.isSome_none, Bool.false_eq_true, if_false, hvalid, hbox, hroom']

/-- What a message to a node of the graph does. -/
theorem sendTo_spec {c : Channel M} (ho : o.failure = none) {target : NodeId}
    (hlt : target.index < c.nodeCount.toNat) {box : Array M}
    (hbox : o.mail.waiting? (c.superstep + 1) target.index = some box)
    (hroom : Mailboxes.delivery c.reduction box = .stored → c.grows o.mail target.index)
    (hnext : o.next.Sized c.nodeCount.toNat) (m : M) :
    (o.sendTo c target m).failure = none ∧
      (o.sendTo c target m).mail =
        o.mail.modify (c.superstep + 1) target.index (Mailboxes.deliver c.reduction m) ∧
      (o.sendTo c target m).tally.processed = o.tally.processed ∧
      (o.sendTo c target m).tally.sent = o.tally.sent + 1 ∧
      (o.sendTo c target m).tally.combined = o.tally.combined +
        (if Mailboxes.delivery c.reduction box = .combined then 1 else 0) ∧
      Wakes c.nodeCount.toNat target.index o (o.sendTo c target m) := by
  rw [sendTo_eq ho hlt hbox hroom m]
  unfold settle
  obtain ⟨hmail, hprocessed, hsent, hcombined⟩ := activate_frame
    { o with
      mail := o.mail.modify (c.superstep + 1) target.index (Mailboxes.deliver c.reduction m)
      tally := { o.tally with
        sent := o.tally.sent + 1
        combined := o.tally.combined +
          if Mailboxes.delivery c.reduction box = .combined then 1 else 0 }
      failure := none } target.index
  refine ⟨by rw [failure_activate], hmail, hprocessed, hsent, hcombined, ?_⟩
  obtain ⟨hsized, hhas, hactivated⟩ := wakes_activate (o := { o with
      mail := o.mail.modify (c.superstep + 1) target.index (Mailboxes.deliver c.reduction m)
      tally := { o.tally with
        sent := o.tally.sent + 1
        combined := o.tally.combined +
          if Mailboxes.delivery c.reduction box = .combined then 1 else 0 }
      failure := none }) hnext hlt
  exact ⟨hsized, hhas, hactivated⟩

/-- What becomes of a step is noted attempt by attempt, if mailboxes grow as needed. -/
theorem failure_attempt {c : Channel M} (hgrows : ∀ mail v, c.grows mail v)
    (hboxes : ∀ v < c.nodeCount.toNat, ∃ box, o.mail.waiting? (c.superstep + 1) v = some box)
    (a : Attempt M) : (o.attempt c a).failure = a.note c.nodeCount o.failure := by
  match a with
  | .message target m =>
    unfold attempt Attempt.note
    simp only
    by_cases hfailed : o.failure.isSome
    · rw [if_pos hfailed, sendTo_of_failed hfailed]
    · rw [if_neg hfailed]
      have hnone : o.failure = none := by simpa using hfailed
      by_cases hlarge : target.val ≥ c.nodeCount
      · rw [if_pos hlarge]
        simp [sendTo, hnone, hlarge, fail]
      · rw [if_neg hlarge]
        have hlt : target.index < c.nodeCount.toNat := by
          rw [ge_iff_le, UInt64.le_iff_toNat_le] at hlarge
          exact Nat.not_le.1 hlarge
        obtain ⟨box, hbox⟩ := hboxes target.index hlt
        rw [sendTo_eq hnone hlt hbox fun _ => hgrows _ _, failure_settle]
  | .breakOff fault unread =>
    unfold attempt Attempt.note fail
    simp only
    split <;> rfl

/-- An attempt that comes to nothing leaves everything else alone. -/
theorem attempt_of_note {c : Channel M} {a : Attempt M}
    (h : a.note c.nodeCount o.failure ≠ none) : ∃ failure, o.attempt c a = { o with failure } := by
  match a with
  | .message target m =>
    unfold attempt
    simp only
    unfold Attempt.note at h
    simp only at h
    by_cases hfailed : o.failure.isSome
    · exact ⟨o.failure, sendTo_of_failed hfailed target m⟩
    · rw [if_neg hfailed] at h
      by_cases hlarge : target.val ≥ c.nodeCount
      · refine ⟨some (.unknownTarget target), ?_⟩
        unfold sendTo
        rw [if_neg hfailed, if_pos hlarge]
        rfl
      · rw [if_neg hlarge] at h
        exact absurd rfl h
  | .breakOff fault unread =>
    unfold attempt
    simp only
    split
    · exact ⟨some (.unreadable fault), rfl⟩
    · exact ⟨o.failure, rfl⟩

end Outbox

/-! ## Reports to the tracker -/

namespace Worker

variable {W V M T : Type}

/-- A report of a full batch fails only if the tracker panics, and changes nothing else. -/
theorem reportBatch_spec (job : Job W V M T) (t : Nat) (node : NodeId) (x : Sweep V M T) :
    (reportBatch job t node x).values = x.values ∧ (reportBatch job t node x).out = x.out ∧
      ∀ e, (reportBatch job t node x).failure = some e → x.failure = some e ∨
        ∃ n state payload, job.batchSize ≤ n ∧
          (job.tracker.take (.logProgress n) state).2 = some payload ∧
          e = .computationPanicked node t payload.message := by
  unfold reportBatch
  split
  · next hfull =>
    split
    · exact ⟨rfl, rfl, fun _ => .inl⟩
    · next hpanic =>
      refine ⟨rfl, rfl, fun e he => .inr ⟨_, _, _, hfull, congrArg Prod.snd hpanic, ?_⟩⟩
      cases he
      rfl
  · exact ⟨rfl, rfl, fun _ => .inl⟩

/-- The last report fails only if the tracker panics, and changes nothing else. -/
theorem reportRest_spec (job : Job W V M T) (x : Sweep V M T) :
    (reportRest job x).values = x.values ∧ (reportRest job x).out = x.out ∧
      ∀ e, (reportRest job x).failure = some e → x.failure = some e ∨
        ∃ n state payload, 0 < n ∧ (job.tracker.take (.logProgress n) state).2 = some payload ∧
          e = .workerPanicked payload.message := by
  unfold reportRest
  split
  · next hsome =>
    split
    · exact ⟨rfl, rfl, fun _ => .inl⟩
    · next hpanic =>
      refine ⟨rfl, rfl, fun e he => .inr ⟨_, _, _, hsome, congrArg Prod.snd hpanic, ?_⟩⟩
      cases he
      rfl
  · exact ⟨rfl, rfl, fun _ => .inl⟩

end Worker

/-! ## The storage in the middle of a superstep -/

theorem ActiveSet.setNext_next (a : ActiveSet) (t : Nat) : a.setNext t (a.next t) = a := by
  unfold setNext next
  split <;> rfl

theorem ActiveSet.current_congr (a : ActiveSet) {s t : Nat} (h : s % 2 = t % 2) :
    a.current s = a.current t := by
  unfold current
  rw [h]

theorem Shared.resume_eq {V M T : Type} {t : Nat} (s : Shared V M T) (h : Hand V M)
    {x : Sweep V M T} (hx : x.out = s.outbox t h.tally none) (stage : Stage V M) :
    s.resume t x stage = (⟨match x.failure with
      | none => stage
      | some e => .failing e, h.tally, x.unreported⟩, { s with tracker := x.tracker }) := by
  unfold resume putOutbox
  rw [hx]
  unfold outbox
  cases x.failure <;> simp only [ActiveSet.setNext_next]

theorem ActiveSet.next_succ (a : ActiveSet) (t : Nat) : a.next (t + 1) = a.current t := by
  unfold next current
  rcases Nat.mod_two_eq_zero_or_one t with h | h <;> simp [h, Nat.add_mod]

namespace NodeStore

section

variable {W V M : Type}

/-- Between two supersteps the storage holds a frame: the mailboxes and the active nodes of
    superstep `t` are those of the frame, and those of the following superstep are empty. -/
structure Holds (p : Program W V M) (t : Nat) (f : Frame V M) (s : NodeStore V M) : Prop where
  values : s.values.Shaped p.nodeCount
  shift_eq : s.values.shift = PagedArray.defaultShift
  mail : s.mail.Shaped p.nodeCount
  current : (s.active.current t).Sized p.nodeCount
  next : (s.active.next t).Sized p.nodeCount
  value_eq : ∀ i < p.nodeCount, s.values.get? i = some (f.value i)
  inbox_eq : ∀ i < p.nodeCount, s.mail.waiting? t i = some (f.inbox i).toArray
  outbox_eq : ∀ i < p.nodeCount, s.mail.waiting? (t + 1) i = some #[]
  has_current : ∀ i, (s.active.current t).Has i ↔ i ∈ f.active
  has_next : ∀ i, ¬ (s.active.next t).Has i

end

variable {W V M : Type} [Message M]

/-- What the storage holds in the middle of superstep `t`, after the history `g`. The nodes of
    `Cleared` have been removed from the active nodes. -/
structure Midway (p : Program W V M) (t : Nat) (f : Frame V M) (g : History M)
    (Cleared : Nat → Prop) (s : NodeStore V M) : Prop where
  values : s.values.Shaped p.nodeCount
  shift_eq : s.values.shift = PagedArray.defaultShift
  mail : s.mail.Shaped p.nodeCount
  current : (s.active.current t).Sized p.nodeCount
  next : (s.active.next t).Sized p.nodeCount
  value_of_begun : ∀ i < p.nodeCount, g.Begun i → s.values.get? i = some (p.outcome f t i).value
  value_of_not_begun : ∀ i < p.nodeCount, ¬ g.Begun i → s.values.get? i = some (f.value i)
  inbox_of_begun : ∀ i < p.nodeCount, g.Begun i → s.mail.waiting? t i = some #[]
  inbox_of_not_begun : ∀ i < p.nodeCount, ¬ g.Begun i →
    s.mail.waiting? t i = some (f.inbox i).toArray
  outbox_eq : ∀ v < p.nodeCount,
    s.mail.waiting? (t + 1) v = some (p.reduction.collect (arrivals g.arrived v)).toArray
  has_current : ∀ i, (s.active.current t).Has i ↔ i ∈ f.active ∧ ¬ Cleared i
  has_next : ∀ i, (s.active.next t).Has i ↔
    (g.Finished i ∧ (p.outcome f t i).halt = false) ∨ ∃ l ∈ g.arrived, l.1.index = i

variable {p : Program W V M} {t : Nat} {f : Frame V M} {g : History M} {Cleared : Nat → Prop}
  {s : NodeStore V M}

theorem Midway.congr (h : s.Midway p t f g Cleared) {Cleared' : Nat → Prop}
    (hcleared : ∀ i, Cleared' i ↔ Cleared i) : s.Midway p t f g Cleared' := by
  obtain rfl : Cleared' = Cleared := funext fun i => propext (hcleared i)
  exact h

/-- At its start a superstep has not done anything. -/
theorem Holds.midway (h : s.Holds p t f) : s.Midway p t f .none fun _ => False where
  values := h.values
  shift_eq := h.shift_eq
  mail := h.mail
  current := h.current
  next := h.next
  value_of_begun := fun i _ ⟨k, hk⟩ => by cases hk
  value_of_not_begun := fun i hi _ => h.value_eq i hi
  inbox_of_begun := fun i _ ⟨k, hk⟩ => by cases hk
  inbox_of_not_begun := fun i hi _ => h.inbox_eq i hi
  outbox_eq := fun v hv => by
    rw [h.outbox_eq v hv]
    simp [History.none, History.arrived]
  has_current := fun i => by simp [h.has_current i]
  has_next := fun i => by simp [h.has_next i, History.Finished, History.none, History.arrived]

namespace Midway

/-- A step is taken: the new value is stored, and the messages are discarded. -/
theorem begin (h : s.Midway p t f g Cleared) (k : Nat) {i : Nat} (hi : i < p.nodeCount)
    {v : PagedView} (hv : v.position? i = some (i / PagedArray.fullPage PagedArray.defaultShift,
      i % PagedArray.fullPage PagedArray.defaultShift)) :
    NodeStore.Midway p t f (g.begin k i) Cleared
      ⟨s.values.viewSet v i (p.outcome f t i).value, s.mail.discard t i, s.active⟩ := by
  have hset : s.values.viewSet v i (p.outcome f t i).value =
      s.values.setAt (i / PagedArray.fullPage s.values.shift)
        (i % PagedArray.fullPage s.values.shift) (p.outcome f t i).value := by
    unfold PagedArray.viewSet
    rw [hv, h.shift_eq]
  have hget : ∀ j, (s.values.viewSet v i (p.outcome f t i).value).get? j =
      if i = j then some (p.outcome f t i).value else s.values.get? j := by
    intro j
    rw [hset, PagedArray.get?_setAt h.values hi]
  have hbox : ∀ j, (s.mail.discard t i).waiting? t j =
      if i = j then (s.mail.waiting? t j).map fun _ => #[] else s.mail.waiting? t j :=
    fun j => Mailboxes.waiting?_modify _ _ _ _ _
  exact {
    values := by
      rw [hset]
      exact h.values.setAt _ _ _
    shift_eq := by
      rw [hset]
      exact h.shift_eq
    mail := h.mail.modify t i _
    current := h.current
    next := h.next
    value_of_begun := by
      intro j hj hbegun
      rw [hget]
      split_ifs with hij
      · rw [hij]
      · rw [History.begun_begin] at hbegun
        exact h.value_of_begun j hj (hbegun.resolve_left fun h => hij h.symm)
    value_of_not_begun := by
      intro j hj hbegun
      rw [History.begun_begin, not_or] at hbegun
      rw [hget, if_neg fun h => hbegun.1 h.symm]
      exact h.value_of_not_begun j hj hbegun.2
    inbox_of_begun := by
      intro j hj hbegun
      rw [hbox]
      split_ifs with hij
      · obtain ⟨box, hwaiting⟩ := h.mail.exists_waiting? t hj
        rw [hwaiting]
        rfl
      · rw [History.begun_begin] at hbegun
        exact h.inbox_of_begun j hj (hbegun.resolve_left fun h => hij h.symm)
    inbox_of_not_begun := by
      intro j hj hbegun
      rw [History.begun_begin, not_or] at hbegun
      rw [hbox, if_neg fun h => hbegun.1 h.symm]
      exact h.inbox_of_not_begun j hj hbegun.2
    outbox_eq := by
      intro w hw
      show (s.mail.modify t i fun _ => #[]).waiting? (t + 1) w = _
      rw [Mailboxes.waiting?_modify_of_ne _ (by omega)]
      exact h.outbox_eq w hw
    has_current := h.has_current
    has_next := h.has_next }

/-- A message arrives in its mailbox, and its target is woken up. -/
theorem post (h : s.Midway p t f g Cleared) (k : Nat) {l : NodeId × M}
    {next : Bitset} (hsized : next.Sized p.nodeCount)
    (hhas : ∀ j, next.Has j ↔ j = l.1.index ∨ (s.active.next t).Has j) :
    NodeStore.Midway p t f (g.post k l) Cleared
      ⟨s.values, s.mail.modify (t + 1) l.1.index (Mailboxes.deliver p.reduction l.2),
        s.active.setNext t next⟩ where
  values := h.values
  shift_eq := h.shift_eq
  mail := h.mail.modify _ _ _
  current := by simpa using h.current
  next := by simpa using hsized
  value_of_begun := h.value_of_begun
  value_of_not_begun := h.value_of_not_begun
  inbox_of_begun := by
    intro j hj hbegun
    rw [Mailboxes.waiting?_modify_of_ne _ (by omega)]
    exact h.inbox_of_begun j hj hbegun
  inbox_of_not_begun := by
    intro j hj hbegun
    rw [Mailboxes.waiting?_modify_of_ne _ (by omega)]
    exact h.inbox_of_not_begun j hj hbegun
  outbox_eq := by
    intro w hw
    rw [Mailboxes.waiting?_modify, h.outbox_eq w hw, History.arrived_post, arrivals_append,
      arrivals_singleton]
    split_ifs
    · rw [Option.map_some, Reduction.deliver_collect]
    · rw [List.append_nil]
  has_current := by
    intro j
    simpa using h.has_current j
  has_next := by
    intro j
    rw [History.arrived_post]
    simp only [ActiveSet.next_setNext, hhas, h.has_next, List.mem_append, List.mem_singleton]
    constructor
    · rintro (rfl | hfinished | ⟨l', hl', rfl⟩)
      · exact .inr ⟨l, .inr rfl, rfl⟩
      · exact .inl hfinished
      · exact .inr ⟨l', .inl hl', rfl⟩
    · rintro (hfinished | ⟨l', hl' | rfl, rfl⟩)
      · exact .inr (.inl hfinished)
      · exact .inr (.inr ⟨l', hl', rfl⟩)
      · exact .inl rfl

/-- A node is counted, and stays awake unless it votes to halt. -/
theorem finish (h : s.Midway p t f g Cleared) (k i : Nat) {next : Bitset}
    (hsized : next.Sized p.nodeCount)
    (hhas : ∀ j, next.Has j ↔ (j = i ∧ (p.outcome f t i).halt = false) ∨ (s.active.next t).Has j) :
    NodeStore.Midway p t f (g.finish k i) Cleared
      ⟨s.values, s.mail, s.active.setNext t next⟩ where
  values := h.values
  shift_eq := h.shift_eq
  mail := h.mail
  current := by simpa using h.current
  next := by simpa using hsized
  value_of_begun := h.value_of_begun
  value_of_not_begun := h.value_of_not_begun
  inbox_of_begun := h.inbox_of_begun
  inbox_of_not_begun := h.inbox_of_not_begun
  outbox_eq := h.outbox_eq
  has_current := by
    intro j
    simpa using h.has_current j
  has_next := by
    intro j
    simp only [ActiveSet.next_setNext, hhas, h.has_next, History.finished_finish]
    constructor
    · rintro (⟨rfl, hawake⟩ | ⟨hfinished, hawake⟩ | hletter)
      · exact .inl ⟨.inl rfl, hawake⟩
      · exact .inl ⟨.inr hfinished, hawake⟩
      · exact .inr hletter
    · rintro (⟨rfl | hfinished, hawake⟩ | hletter)
      · exact .inl ⟨rfl, hawake⟩
      · exact .inr (.inl ⟨hfinished, hawake⟩)
      · exact .inr (.inr hletter)

/-- The nodes of a worker are removed from the active nodes. -/
theorem clear (h : s.Midway p t f g Cleared) (start stop : Nat) :
    NodeStore.Midway p t f g (fun i => Cleared i ∨ start ≤ i ∧ i < stop)
      ⟨s.values, s.mail, s.active.setCurrent t ((s.active.current t).clear start stop).1⟩ where
  values := h.values
  shift_eq := h.shift_eq
  mail := h.mail
  current := by simpa using h.current.clear start stop
  next := by simpa using h.next
  value_of_begun := h.value_of_begun
  value_of_not_begun := h.value_of_not_begun
  inbox_of_begun := h.inbox_of_begun
  inbox_of_not_begun := h.inbox_of_not_begun
  outbox_eq := h.outbox_eq
  has_current := by
    intro j
    simp only [ActiveSet.current_setCurrent, Bitset.has_clear, h.has_current, not_or]
    tauto
  has_next := by
    intro j
    simpa using h.has_next j

/-- When every active node has been counted and removed, the storage holds the next frame. -/
theorem holds (h : s.Midway p t f g Cleared) (hf : f.Proper p)
    (hbegun : ∀ i, g.Begun i ↔ i ∈ f.active) (hfinished : ∀ i, g.Finished i ↔ i ∈ f.active)
    (hcleared : ∀ i ∈ f.active, Cleared i) : s.Holds p (t + 1) (p.after f t g.arrived) where
  values := h.values
  shift_eq := h.shift_eq
  mail := h.mail
  current := by
    rw [← ActiveSet.next_eq_current_succ]
    exact h.next
  next := by
    rw [ActiveSet.next_succ]
    exact h.current
  value_eq := fun i hi => by
    show _ = some (if i ∈ f.active then _ else _)
    split_ifs with hactive
    · exact h.value_of_begun i hi ((hbegun i).2 hactive)
    · exact h.value_of_not_begun i hi fun hb => hactive ((hbegun i).1 hb)
  inbox_eq := h.outbox_eq
  outbox_eq := fun i hi => by
    rw [Mailboxes.waiting?_congr s.mail (t := t) (by omega)]
    by_cases hactive : i ∈ f.active
    · exact h.inbox_of_begun i hi ((hbegun i).2 hactive)
    · have hempty : f.inbox i = [] := by
        by_contra hne
        exact hactive (hf.mem_active i hne)
      rw [h.inbox_of_not_begun i hi fun hb => hactive ((hbegun i).1 hb), hempty]
  has_current := fun i => by
    rw [← ActiveSet.next_eq_current_succ, h.has_next, hfinished, Program.mem_active_after]
    constructor
    · rintro (hawake | hletter)
      · exact .inl hawake
      · have hhas : (s.active.next t).Has i := (h.has_next i).2 (.inr hletter)
        exact .inr ⟨h.next.lt_of_has i hhas, hletter⟩
    · rintro (hawake | ⟨-, hletter⟩)
      · exact .inl hawake
      · exact .inr hletter
  has_next := fun i => by
    rw [ActiveSet.next_succ, h.has_current]
    exact fun ⟨hactive, hnot⟩ => hnot (hcleared i hactive)

end Midway

end NodeStore

end Superstep
