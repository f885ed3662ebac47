import Superstep.Proofs.Crew.Store
import Superstep.Proofs.Run.Partition

/-!
# What one action does

`AtStage` says what a worker has done at each stage of its turn, and `WorkerInvariant` what it may
rely on while the others go on: nobody else begins or clears a node of its partition. Where this
holds, every action extends the history by at most one event, the storage and the counts follow
(`ActionEffect`), and the others see nothing of it but the messages.

Results:
* `activeNodes_eq`: a worker finds the active nodes of its partition.
* `WorkerInvariant.act`: what an action does.
-/

namespace Superstep

/-! ## Workers and their shares -/

/-- The active nodes of a worker in ascending order. -/
def Program.share {W V M : Type} (_ : Program W V M) (f : Frame V M) (w : Worker) : List Nat :=
  w.partition.nodes.filter (· ∈ f.active)

/-- The workers of a run: their partitions tile the nodes, and each finds its values where the array
    has them. -/
structure Team {W V M : Type} (p : Program W V M) (workers : List Worker) : Prop where
  small : p.nodeCount + Bitset.wordBits < wordLimit
  tiles : Partition.Tiles 0 p.nodeCount (workers.map Worker.partition)
  position?_eq : ∀ w ∈ workers, ∀ i ∈ w.partition.nodes,
    w.view.position? i = some (i / PagedArray.fullPage PagedArray.defaultShift,
      i % PagedArray.fullPage PagedArray.defaultShift)

theorem Program.mem_share {W V M : Type} {p : Program W V M} {f : Frame V M} {w : Worker}
    {i : Nat} : i ∈ p.share f w ↔ i ∈ w.partition.nodes ∧ i ∈ f.active := by
  simp [share]

theorem Program.active_of_share {W V M : Type} {p : Program W V M} {f : Frame V M} {w : Worker}
    {before after : List Nat} {i : Nat} (h : p.share f w = before ++ i :: after) :
    i ∈ f.active := by
  have hmem : i ∈ p.share f w := by
    rw [h]
    simp
  exact (mem_share.1 hmem).2

theorem Team.eq_of_mem {W V M : Type} {p : Program W V M} {workers : List Worker}
    (h : Team p workers) {j k i : Nat} {v w : Worker} (hv : workers[j]? = some v)
    (hw : workers[k]? = some w) (hiv : i ∈ v.partition.nodes) (hiw : i ∈ w.partition.nodes) :
    j = k :=
  h.tiles.eq_of_mem (by rw [List.getElem?_map, hv]; rfl) (by rw [List.getElem?_map, hw]; rfl)
    hiv hiw

/-! ## Where a worker stands -/

section

variable {W V M T : Type}

/-- The message that the next action of a worker puts into a mailbox, if it puts one there. -/
def Hand.posting? (nodeCount : UInt64) (h : Hand V M) : Option (NodeId × M) :=
  match h.stage with
  | .sending _ _ lost (a :: _) _ => if (a.note nodeCount lost).isNone then a.letter? else none
  | _ => none

/-- Worker `k` has gone through its nodes except `rest`. None of the steps has failed, and all their
    messages have been sent. -/
structure UpTo (p : Program W V M) (t : Nat) (f : Frame V M) (g : History M) (k : Nat) (w : Worker)
    (rest : List Nat) : Prop where
  split : g.finished k ++ rest = p.share f w
  begun_eq : g.begun k = g.finished k
  sent_eq : g.sent k = (g.finished k).flatMap (p.letters f t)
  flawless : ∀ i ∈ g.finished k, p.failure? f t i = none

/-- Worker `k` is sending the messages of node `i`; `made` are the attempts that it has made. -/
structure Sending (p : Program W V M) (t : Nat) (f : Frame V M) (g : History M) (k : Nat)
    (w : Worker) (i : Nat) (lost : Option SendFailure) (made rest : List (Attempt M))
    (nodes : List Nat) : Prop where
  split : g.finished k ++ i :: nodes = p.share f w
  begun_eq : g.begun k = g.finished k ++ [i]
  flawless : ∀ i ∈ g.finished k, p.failure? f t i = none
  attempts_eq : made ++ rest = p.attempts f t i
  lost_eq : lost = made.foldl (Attempt.note p.graph.nodeCount) none
  sent_eq : lost = none →
    g.sent k = (g.finished k).flatMap (p.letters f t) ++ made.filterMap Attempt.letter?

/-- Why a worker fails: the step of one of its nodes fails, or the tracker panics. The nodes that
    the worker has gone through before have not failed. -/
inductive Cause (job : Job W V M T) (t : Nat) (f : Frame V M) (w : Worker) : RunError → Prop
  | step {before after : List Nat} {i : Nat} {e : RunError} :
    job.program.share f w = before ++ i :: after →
      (∀ j ∈ before, job.program.failure? f t j = none) →
        job.program.failure? f t i = some e → Cause job t f w e
  /-- The tracker panics when a full batch is reported. Node `i` is the last one of the batch. -/
  | batch {before after : List Nat} {i n : Nat} {state : T} {payload : PanicPayload} :
    job.program.share f w = before ++ i :: after →
      (∀ j ∈ before ++ [i], job.program.failure? f t j = none) → job.batchSize ≤ n →
        (job.tracker.take (.logProgress n) state).2 = some payload →
          Cause job t f w (.computationPanicked (.ofIndex i) t payload.message)
  /-- The tracker panics when the nodes after the last full batch are reported. -/
  | rest {n : Nat} {state : T} {payload : PanicPayload} :
    0 < n → (job.tracker.take (.logProgress n) state).2 = some payload →
      Cause job t f w (.workerPanicked payload.message)

/-- Unless the tracker panics, a worker fails because one of its nodes does. -/
theorem Cause.exists_failure? {job : Job W V M T} {t : Nat} {f : Frame V M} {w : Worker}
    {e : RunError} (h : Cause job t f w e)
    (htracker : ∀ report state, (job.tracker.take report state).2 = none) :
    ∃ before i after, job.program.share f w = before ++ i :: after ∧
      (∀ j ∈ before, job.program.failure? f t j = none) ∧
      job.program.failure? f t i = some e := by
  cases h with
  | step hshare hbefore hfail => exact ⟨_, _, _, hshare, hbefore, hfail⟩
  | batch _ _ _ hpanic =>
    rw [htracker] at hpanic
    cases hpanic
  | rest _ hpanic =>
    rw [htracker] at hpanic
    cases hpanic

/-- What worker `k` has done when it is at a stage of its turn. -/
def AtStage (job : Job W V M T) (t : Nat) (f : Frame V M) (g : History M) (k : Nat) (w : Worker)
    (aborted : Bool) : Stage V M → Prop
  | .waiting => UpTo job.program t f g k w (job.program.share f w)
  | .between nodes => UpTo job.program t f g k w nodes
  | .sending i outcome lost rest nodes =>
    outcome = job.program.outcome f t i ∧
      ∃ made, Sending job.program t f g k w i lost made rest nodes
  | .counted i nodes =>
    (∃ before, g.finished k = before ++ [i]) ∧ UpTo job.program t f g k w nodes
  | .reporting | .clearing | .done false =>
    ∃ rest, UpTo job.program t f g k w rest ∧ (rest = [] ∨ aborted = true)
  | .failing e | .recording e => Cause job t f w e
  | .done true => True

namespace Sending

variable {p : Program W V M} {t : Nat} {f : Frame V M} {g g' : History M} {k : Nat} {w : Worker}
  {i : Nat} {lost lost' : Option SendFailure} {made rest : List (Attempt M)} {nodes : List Nat}

theorem mem_share (h : Sending p t f g k w i lost made rest nodes) : i ∈ p.share f w := by
  rw [← h.split]
  simp

/-- One more attempt has been made. -/
theorem attempted {a : Attempt M} (h : Sending p t f g k w i lost made (a :: rest) nodes)
    (hbegun : g'.begun k = g.begun k) (hfinished : g'.finished k = g.finished k)
    (hlost : lost' = a.note p.graph.nodeCount lost)
    (hsent : lost' = none → g'.sent k = g.sent k ++ a.letter?.toList) :
    Sending p t f g' k w i lost' (made ++ [a]) rest nodes where
  split := by rw [hfinished, h.split]
  begun_eq := by rw [hbegun, hfinished, h.begun_eq]
  flawless := by
    rw [hfinished]
    exact h.flawless
  attempts_eq := by rw [← h.attempts_eq, List.append_assoc, List.singleton_append]
  lost_eq := by
    rw [List.foldl_append, ← h.lost_eq, hlost]
    rfl
  sent_eq := fun hnone => by
    rw [hsent hnone]
    rw [hlost] at hnone
    rw [h.sent_eq (note_eq_none_iff.1 hnone).1, hfinished, List.append_assoc,
      List.filterMap_append]
    cases a <;> rfl

theorem failure?_eq (h : Sending p t f g k w i lost made [] nodes) : p.failure? f t i =
    Worker.failureOf? (.ofIndex i) t p.graph.nodeCount (p.outcome f t i).failure lost := by
  unfold Program.failure?
  rw [← h.attempts_eq, List.append_nil, ← h.lost_eq]

/-- A step that has not failed is behind the worker. -/
theorem upTo (h : Sending p t f g k w i none made [] nodes) (hfail : p.failure? f t i = none) :
    UpTo p t f (g.finish k i) k w nodes := by
  have hmade : made = p.attempts f t i := by
    rw [← h.attempts_eq, List.append_nil]
  have hsent : g.sent k = (g.finished k ++ [i]).flatMap (p.letters f t) := by
    rw [h.sent_eq rfl, List.flatMap_append, List.flatMap_singleton, hmade, ← Program.letters_eq]
  have hflawless : ∀ j ∈ g.finished k ++ [i], p.failure? f t j = none := by
    intro j hj
    rcases List.mem_append.1 hj with hj | hj
    · exact h.flawless j hj
    · rw [List.mem_singleton.1 hj]
      exact hfail
  rw [← History.finished_finish_self] at hsent hflawless
  refine ⟨?_, ?_, hsent, hflawless⟩
  · rw [History.finished_finish_self, ← h.split, List.append_assoc, List.singleton_append]
  · rw [History.finished_finish_self]
    exact h.begun_eq

end Sending

end

variable {W V M T : Type} [Message M]

/-- What worker `k` relies on in superstep `t`. -/
structure WorkerInvariant (job : Job W V M T) (t : Nat) (f : Frame V M) (k : Nat) (w : Worker)
    (g : History M) (Cleared : Nat → Prop) (h : Hand V M) (s : Shared V M T) : Prop where
  small : job.program.nodeCount + Bitset.wordBits < wordLimit
  stop_le : w.partition.start ≤ w.partition.stop ∧ w.partition.stop ≤ job.program.nodeCount
  position?_eq : ∀ i ∈ w.partition.nodes,
    w.view.position? i = some (i / PagedArray.fullPage PagedArray.defaultShift,
      i % PagedArray.fullPage PagedArray.defaultShift)
  store : s.store.Midway job.program t f g Cleared
  atStage : AtStage job t f g k w s.aborted h.stage
  finished_le : g.finished k <+: g.begun k
  begun_le : g.begun k <+: job.program.share f w
  fresh : ∀ i ∈ w.partition.nodes, g.Begun i → i ∈ g.begun k
  uncleared : ∀ i ∈ w.partition.nodes, ¬ Cleared i

/-- What an action of worker `k` does, from `g`, `h` and `s` to `g'`, `h'` and `s'`. -/
structure ActionEffect (job : Job W V M T) (t : Nat) (f : Frame V M) (k : Nat) (w : Worker)
    (Cleared : Nat → Prop) (g : History M) (h : Hand V M) (s : Shared V M T) (g' : History M)
    (h' : Hand V M) (s' : Shared V M T) : Prop where
  others : ∀ j ≠ k, g'.begun j = g.begun j ∧ g'.finished j = g.finished j ∧ g'.sent j = g.sent j
  logged : ∀ l ∈ g'.log, l ∈ g.log ∨ l.1 = k
  store : s'.store.Midway job.program t f g' fun i =>
    Cleared i ∨ (h'.stage = .done false ∧ i ∈ w.partition.nodes)
  atStage : AtStage job t f g' k w s'.aborted h'.stage
  finished_le : g'.finished k <+: g'.begun k
  begun_le : g'.begun k <+: job.program.share f w
  processed : h'.tally.processed + (g.finished k).length =
    h.tally.processed + (g'.finished k).length
  sent : h'.tally.sent + (g.sent k).length = h.tally.sent + (g'.sent k).length
  combined : h'.tally.combined + job.reduction.left g'.arrived + g.arrived.length =
    h.tally.combined + job.reduction.left g.arrived + g'.arrived.length
  activated : h'.tally.activated + (s.store.active.next t).card job.program.nodeCount =
    h.tally.activated + (s'.store.active.next t).card job.program.nodeCount
  aborted : s.aborted = true → s'.aborted = true

variable {job : Job W V M T} {t : Nat} {f : Frame V M} {k : Nat} {w : Worker} {g : History M}
  {Cleared : Nat → Prop} {h : Hand V M} {s : Shared V M T}

namespace WorkerInvariant

/-! ## Actions without an event -/

/-- An action that leaves the storage and the counts alone. -/
theorem quiet (hf : WorkerInvariant job t f k w g Cleared h s) {h' : Hand V M} {s' : Shared V M T}
    (hstore : s'.store = s.store) (htally : h'.tally = h.tally)
    (haborted : s.aborted = true → s'.aborted = true) (hstage : h'.stage ≠ .done false)
    (hatStage : AtStage job t f g k w s'.aborted h'.stage) :
    ActionEffect job t f k w Cleared g h s g h' s' where
  others := fun _ _ => ⟨rfl, rfl, rfl⟩
  logged := fun _ hl => .inl hl
  store := by
    rw [hstore]
    exact hf.store.congr fun i => by simp [hstage]
  atStage := hatStage
  finished_le := hf.finished_le
  begun_le := hf.begun_le
  processed := by rw [htally]
  sent := by rw [htally]
  combined := by rw [htally]
  activated := by rw [htally, hstore]
  aborted := haborted

theorem activeNodes_eq (hf : WorkerInvariant job t f k w g Cleared h s) :
    w.activeNodes (s.store.active.current t) = job.program.share f w := by
  unfold Worker.activeNodes Program.share Partition.nodes
  rw [Bitset.members?_eq hf.store.current hf.small (hf.stop_le.1.trans hf.stop_le.2) hf.stop_le.2,
    Option.getD_some]
  refine List.filter_congr ?_
  intro i hi
  have hclear : ¬ Cleared i := hf.uncleared i (Partition.mem_nodes.2 (by
    rw [List.mem_range'_1] at hi
    omega))
  simp only [hf.store.has_current i, hclear, not_false_eq_true, and_true]

/-! ## Steps -/

theorem lt_of_active (hf : WorkerInvariant job t f k w g Cleared h s) {i : Nat}
    (hnode : i ∈ w.partition.nodes) (hactive : i ∈ f.active) : i < job.program.nodeCount := by
  have hhas := (hf.store.has_current i).2 ⟨hactive, hf.uncleared i hnode⟩
  exact hf.store.current.lt_of_has i hhas

/-- The node that comes next is active, and nobody has begun its step. -/
theorem mem_of_upTo (hf : WorkerInvariant job t f k w g Cleared h s) {i : Nat} {nodes : List Nat}
    (hu : UpTo job.program t f g k w (i :: nodes)) :
    i ∈ w.partition.nodes ∧ i ∈ f.active ∧ ¬ g.Begun i := by
  have hmem : i ∈ job.program.share f w := by
    rw [← hu.split]
    simp
  obtain ⟨hnode, hactive⟩ := Program.mem_share.1 hmem
  refine ⟨hnode, hactive, ?_⟩
  intro hbegun
  have hnodup : (job.program.share f w).Nodup := (List.nodup_range' ..).filter _
  rw [← hu.split, List.nodup_append] at hnodup
  have hfinished := hf.fresh i hnode hbegun
  rw [hu.begun_eq] at hfinished
  exact hnodup.2.2 i hfinished i (List.mem_cons_self ..) rfl

theorem present_of_upTo (hf : WorkerInvariant job t f k w g Cleared h s) {i : Nat}
    {nodes : List Nat} (hu : UpTo job.program t f g k w (i :: nodes)) :
    s.store.values.viewGet? w.view i = some (f.value i) ∧
      s.store.mail.waiting? t i = some (f.inbox i).toArray := by
  obtain ⟨hnode, hactive, hfresh⟩ := hf.mem_of_upTo hu
  have hi : i < job.program.nodeCount := hf.lt_of_active hnode hactive
  refine ⟨?_, hf.store.inbox_of_not_begun i hi hfresh⟩
  rw [PagedArray.viewGet?_eq hf.store.values hi
    (by rw [hf.store.shift_eq]; exact hf.position?_eq i hnode)]
  exact hf.store.value_of_not_begun i hi hfresh

/-- A worker takes up its next node. -/
theorem pick (hf : WorkerInvariant job t f k w g Cleared h s) {i : Nat} {nodes : List Nat}
    (hu : UpTo job.program t f g k w (i :: nodes)) :
    ActionEffect job t f k w Cleared g h s (g.begin k i) (w.pick job t h s i nodes).1
      (w.pick job t h s i nodes).2 := by
  obtain ⟨hnode, hactive, hfresh⟩ := hf.mem_of_upTo hu
  have hi : i < job.program.nodeCount := hf.lt_of_active hnode hactive
  have hpos := hf.position?_eq i hnode
  obtain ⟨hvalue, hinbox⟩ := hf.present_of_upTo hu
  have hpick : w.pick job t h s i nodes =
      ({ h with
          stage := .sending i (job.program.outcome f t i) none (job.program.attempts f t i) nodes },
        { s with store := ⟨s.store.values.viewSet w.view i (job.program.outcome f t i).value,
          s.store.mail.discard t i, s.store.active⟩ }) := by
    unfold Worker.pick
    rw [hvalue, hinbox]
    rfl
  rw [hpick]
  exact {
    others := fun j hj => ⟨History.begun_begin_of_ne g hj i, rfl, rfl⟩
    logged := fun _ hl => .inl hl
    store := (hf.store.begin k hi hpos).congr fun j => by simp
    atStage := ⟨rfl, [], {
      split := hu.split
      begun_eq := by rw [History.begun_begin_self, hu.begun_eq]; rfl
      flawless := hu.flawless
      attempts_eq := rfl
      lost_eq := rfl
      sent_eq := fun _ => by
        show g.sent k = _
        rw [hu.sent_eq]
        simp [History.begin] }⟩
    finished_le := by
      rw [History.begun_begin_self]
      exact hf.finished_le.trans (List.prefix_append _ _)
    begun_le := by
      rw [History.begun_begin_self, hu.begun_eq, ← hu.split]
      exact ⟨nodes, by simp⟩
    processed := rfl
    sent := rfl
    combined := rfl
    activated := rfl
    aborted := id }

/-- A message to a node of the graph is sent. -/
theorem deliver (hf : WorkerInvariant job t f k w g Cleared h s) {i : Nat} {outcome : Outcome V M}
    {lost : Option SendFailure} {a : Attempt M} {rest : List (Attempt M)} {nodes : List Nat}
    (hstage : h.stage = .sending i outcome lost (a :: rest) nodes)
    (hnote : a.note job.graph.nodeCount lost = none) {o : Outbox M}
    (ho : (s.outbox t h.tally lost).attempt (job.channel t) a = o) :
    ∃ l, a.letter? = some l ∧ ActionEffect job t f k w Cleared g h s (g.post k l)
      ⟨.sending i outcome o.failure rest nodes, o.tally, h.unreported⟩ (s.putOutbox t o) := by
  obtain ⟨rfl, target, m, rfl, hlt⟩ := note_eq_none_iff.1 hnote
  have hatStage := hf.atStage
  rw [hstage] at hatStage
  obtain ⟨houtcome, made, hsending⟩ := hatStage
  obtain ⟨hfailure, hmail, hprocessed, hsent, hcombined, hwakes⟩ :=
    Outbox.sendTo_spec (o := s.outbox t h.tally none) (c := job.channel t) rfl hlt
      (hf.store.outbox_eq target.index hlt) (fun _ => rfl) hf.store.next m
  have hleft : job.reduction.left (g.arrived ++ [(target, m)]) +
      (if Mailboxes.delivery (job.channel t).reduction
        (job.program.reduction.collect (arrivals g.arrived target.index)).toArray = .combined
          then 1 else 0) = job.reduction.left g.arrived + 1 :=
    job.reduction.left_append_singleton g.arrived (target, m)
  rw [show (s.outbox t h.tally none).sendTo (job.channel t) target m = o from ho] at *
  refine ⟨(target, m), rfl, ?_⟩
  exact {
    others := fun j hj => ⟨rfl, rfl, History.sent_post_of_ne g hj _⟩
    logged := fun l hl => by
      rcases List.mem_append.1 hl with hl | hl
      · exact .inl hl
      · rw [List.mem_singleton.1 hl]
        exact .inr rfl
    store := by
      have hstore := hf.store.post k (l := (target, m)) hwakes.sized hwakes.has
      have hput : (s.putOutbox t o).store =
          ⟨s.store.values, s.store.mail.modify (t + 1) target.index
            (Mailboxes.deliver job.reduction m), s.store.active.setNext t o.next⟩ := by
        unfold Shared.putOutbox
        rw [hmail]
        rfl
      rw [hput]
      exact hstore.congr fun j => by simp
    atStage := ⟨houtcome, _, hsending.attempted rfl rfl (hfailure.trans hnote.symm)
      fun _ => History.sent_post_self g k (target, m)⟩
    finished_le := hf.finished_le
    begun_le := hf.begun_le
    processed := by rw [hprocessed]; rfl
    sent := by
      rw [hsent, History.sent_post_self, List.length_append]
      show h.tally.sent + 1 + _ = h.tally.sent + (_ + 1)
      omega
    combined := by
      have hcount : o.tally.combined = h.tally.combined + _ := hcombined
      rw [hcount, History.arrived_post, List.length_append, List.length_singleton]
      omega
    activated := by
      have hput : (s.putOutbox t o).store.active.next t = o.next := ActiveSet.next_setNext ..
      rw [hput]
      exact hwakes.activated
    aborted := id }

/-- An attempt comes to nothing. -/
theorem lose (hf : WorkerInvariant job t f k w g Cleared h s) {i : Nat} {outcome : Outcome V M}
    {lost : Option SendFailure} {a : Attempt M} {rest : List (Attempt M)} {nodes : List Nat}
    (hstage : h.stage = .sending i outcome lost (a :: rest) nodes)
    (hnote : a.note job.graph.nodeCount lost ≠ none) {o : Outbox M}
    (ho : (s.outbox t h.tally lost).attempt (job.channel t) a = o) :
    ActionEffect job t f k w Cleared g h s g ⟨.sending i outcome o.failure rest nodes, o.tally,
      h.unreported⟩ (s.putOutbox t o) := by
  have hatStage := hf.atStage
  rw [hstage] at hatStage
  obtain ⟨houtcome, made, hsending⟩ := hatStage
  have hfailure : o.failure = a.note job.graph.nodeCount lost := by
    rw [← ho]
    exact Outbox.failure_attempt (c := job.channel t) (fun _ _ => rfl)
      (fun v hv => ⟨_, hf.store.outbox_eq v hv⟩) a
  obtain ⟨failure, hattempt⟩ := Outbox.attempt_of_note (o := s.outbox t h.tally lost)
    (c := job.channel t) hnote
  have hsame : o = { s.outbox t h.tally lost with failure } := ho.symm.trans hattempt
  have hput : s.putOutbox t o = s := by
    rw [hsame]
    unfold Shared.putOutbox Shared.outbox
    simp only [ActiveSet.setNext_next]
  have htally : o.tally = h.tally := by
    rw [hsame]
    rfl
  rw [hput]
  exact hf.quiet rfl htally id nofun ⟨houtcome, _, hsending.attempted rfl rfl hfailure
    fun hnone => absurd (hfailure.symm.trans hnone) hnote⟩

/-- A step that has not failed is counted, and its node stays awake unless it votes to halt. -/
theorem count (hf : WorkerInvariant job t f k w g Cleared h s) {i : Nat} {outcome : Outcome V M}
    {nodes : List Nat} (hstage : h.stage = .sending i outcome none [] nodes)
    (hfail : Worker.failureOf? (.ofIndex i) t job.graph.nodeCount outcome.failure none = none) :
    ActionEffect job t f k w Cleared g h s (g.finish k i)
      (s.resume t (Worker.settle (s.sweep t h) i outcome.halt) (.counted i nodes)).1
      (s.resume t (Worker.settle (s.sweep t h) i outcome.halt) (.counted i nodes)).2 := by
  have hatStage := hf.atStage
  rw [hstage] at hatStage
  obtain ⟨rfl, made, hsending⟩ := hatStage
  obtain ⟨hnode, hactive⟩ := Program.mem_share.1 hsending.mem_share
  have hi : i < job.program.nodeCount := hf.lt_of_active hnode hactive
  obtain ⟨o, ho⟩ : ∃ o, (if (job.program.outcome f t i).halt then s.outbox t h.tally none
    else (s.outbox t h.tally none).activate i) = o := ⟨_, rfl⟩
  obtain ⟨hmail, hprocessed, hsent', hcombined, hsized, hhas, hactivated⟩ :=
    Outbox.halt_spec hf.store.next hi _ ho
  have hsettle : Worker.settle (s.sweep t h) i (job.program.outcome f t i).halt =
      ⟨s.store.values, { o with tally := { o.tally with processed := o.tally.processed + 1 } },
        s.tracker, h.unreported + 1, none⟩ := by
    subst ho
    rfl
  rw [hsettle]
  have hstore : ((s.resume t ⟨s.store.values, { o with tally := { o.tally with
      processed := o.tally.processed + 1 } }, s.tracker, h.unreported + 1, none⟩
        (.counted i nodes)).2).store = ⟨s.store.values, s.store.mail,
          s.store.active.setNext t o.next⟩ := by
    unfold Shared.resume Shared.putOutbox
    simp only [hmail]
    rfl
  exact {
    others := fun j hj => ⟨rfl, History.finished_finish_of_ne g hj i, rfl⟩
    logged := fun _ hl => .inl hl
    store := by
      rw [hstore]
      exact (hf.store.finish k i hsized hhas).congr fun j => by simp [Shared.resume]
    atStage := ⟨⟨_, History.finished_finish_self g k i⟩,
      hsending.upTo (hsending.failure?_eq.trans hfail)⟩
    finished_le := by
      rw [History.finished_finish_self, ← hsending.begun_eq]
      exact List.prefix_rfl
    begun_le := hf.begun_le
    processed := by
      rw [History.finished_finish_self, List.length_append]
      show o.tally.processed + 1 + _ = h.tally.processed + (_ + 1)
      rw [hprocessed]
      show h.tally.processed + 1 + _ = h.tally.processed + (_ + 1)
      omega
    sent := by
      show o.tally.sent + _ = h.tally.sent + _
      rw [hsent']
      rfl
    combined := by
      show o.tally.combined + _ + _ = h.tally.combined + _ + _
      rw [hcombined]
      rfl
    activated := by
      rw [hstore]
      show o.tally.activated + _ = h.tally.activated +
        ((s.store.active.setNext t o.next).next t).card job.program.nodeCount
      rw [ActiveSet.next_setNext]
      exact hactivated
    aborted := id }

/-! ## Reports, and the end of a worker -/

theorem report (hf : WorkerInvariant job t f k w g Cleared h s) {x : Sweep V M T}
    (stage : Stage V M) (hx : x.out = s.outbox t h.tally none) (hstage : stage ≠ .done false)
    (hatStage : AtStage job t f g k w s.aborted stage)
    (hfailure : ∀ e, x.failure = some e → Cause job t f w e) :
    ActionEffect job t f k w Cleared g h s g (s.resume t x stage).1 (s.resume t x stage).2 := by
  rw [Shared.resume_eq s h hx]
  cases hfault : x.failure with
  | none => exact hf.quiet rfl rfl id hstage hatStage
  | some e => exact hf.quiet rfl rfl id nofun (hfailure e hfault)

/-- A worker that is through removes its nodes from the active nodes. -/
theorem leave (hf : WorkerInvariant job t f k w g Cleared h s) (hstage : h.stage = .clearing) :
    ActionEffect job t f k w Cleared g h s g { h with stage := .done false }
      { s with store := { s.store with
        active := s.store.active.setCurrent t
          ((s.store.active.current t).clear w.partition.start w.partition.stop).1 } } where
  others := fun _ _ => ⟨rfl, rfl, rfl⟩
  logged := fun _ hl => .inl hl
  store := (hf.store.clear w.partition.start w.partition.stop).congr fun i => by
    simp [Partition.mem_nodes]
  atStage := by
    have hatStage := hf.atStage
    rw [hstage] at hatStage
    exact hatStage
  finished_le := hf.finished_le
  begun_le := hf.begun_le
  processed := rfl
  sent := rfl
  combined := rfl
  activated := by
    show h.tally.activated + _ = h.tally.activated +
      ((s.store.active.setCurrent t
        ((s.store.active.current t).clear w.partition.start w.partition.stop).1).next t).card
          job.program.nodeCount
    rw [ActiveSet.next_setCurrent]
  aborted := id

/-- Every action extends the history by what it does, and what it sends is the last to arrive. -/
theorem act (hf : WorkerInvariant job t f k w g Cleared h s) {h' : Hand V M} {s' : Shared V M T}
    (hact : w.act job t h s = some (h', s')) :
    ∃ g', ActionEffect job t f k w Cleared g h s g' h' s' ∧
      g'.arrived = g.arrived ++ (h.posting? job.graph.nodeCount).toList := by
  have hatStage := hf.atStage
  cases Worker.acts_of_act hact with
  | look hstage =>
    rw [hstage] at hatStage
    refine ⟨g, hf.quiet rfl rfl id nofun ?_, by simp [Hand.posting?, hstage]⟩
    show UpTo job.program t f g k w (w.activeNodes (s.store.active.current t))
    rw [hf.activeNodes_eq]
    exact hatStage
  | stop hstage hend =>
    rw [hstage] at hatStage
    exact ⟨g, hf.quiet rfl rfl id nofun ⟨_, hatStage, hend⟩, by simp [Hand.posting?, hstage]⟩
  | pick hstage _ hpick =>
    rw [hstage] at hatStage
    have heffect := hf.pick hatStage
    rw [hpick] at heffect
    exact ⟨_, heffect, by simp [Hand.posting?, hstage]⟩
  | @attempt i outcome lost a rest nodes o hstage ho =>
    by_cases hnote : a.note job.graph.nodeCount lost = none
    · obtain ⟨l, hl, heffect⟩ := hf.deliver hstage hnote ho
      exact ⟨_, heffect, by simp [Hand.posting?, hstage, hnote, hl]⟩
    · exact ⟨g, hf.lose hstage hnote ho, by simp [Hand.posting?, hstage, hnote]⟩
  | fail hstage hfail =>
    rw [hstage] at hatStage
    obtain ⟨rfl, made, hsending⟩ := hatStage
    exact ⟨g, hf.quiet rfl rfl id nofun
      (.step hsending.split.symm hsending.flawless (hsending.failure?_eq.trans hfail)),
      by simp [Hand.posting?, hstage]⟩
  | count hstage hfail hcount =>
    obtain rfl := (Worker.lost_of_failureOf? hfail).2
    have heffect := hf.count hstage hfail
    rw [hcount] at heffect
    exact ⟨_, heffect, by simp [Hand.posting?, hstage]⟩
  | @batch i nodes _ _ hstage hbatch =>
    rw [hstage] at hatStage
    obtain ⟨⟨before, hfinished⟩, hu⟩ := hatStage
    have hsplit : job.program.share f w = before ++ i :: nodes := by
      rw [← hu.split, hfinished, List.append_assoc, List.singleton_append]
    have hflawless := hu.flawless
    rw [hfinished] at hflawless
    obtain ⟨-, hout, hpanic⟩ := Worker.reportBatch_spec job t (.ofIndex i) (s.sweep t h)
    have heffect := hf.report (.between nodes) hout nofun hu
      fun e he => by
        rcases hpanic e he with hfault | ⟨n, state, payload, hfull, htake, rfl⟩
        · cases hfault
        · exact .batch hsplit hflawless hfull htake
    rw [hbatch] at heffect
    exact ⟨g, heffect, by simp [Hand.posting?, hstage]⟩
  | rest hstage hrest =>
    rw [hstage] at hatStage
    obtain ⟨-, hout, hpanic⟩ := Worker.reportRest_spec job (s.sweep t h)
    have heffect := hf.report .clearing hout nofun hatStage
      fun e he => by
        rcases hpanic e he with hfault | ⟨n, state, payload, hsome, htake, rfl⟩
        · cases hfault
        · exact .rest hsome htake
    rw [hrest] at heffect
    exact ⟨g, heffect, by simp [Hand.posting?, hstage]⟩
  | clear hstage hclear =>
    rw [← hclear]
    exact ⟨g, hf.leave hstage, by simp [Hand.posting?, hstage]⟩
  | abort hstage =>
    rw [hstage] at hatStage
    exact ⟨g, hf.quiet rfl rfl (fun _ => rfl) nofun hatStage, by simp [Hand.posting?, hstage]⟩
  | record hstage =>
    exact ⟨g, hf.quiet rfl rfl id nofun trivial, by simp [Hand.posting?, hstage]⟩

end WorkerInvariant

end Superstep
