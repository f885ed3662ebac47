import Superstep.Proofs.Crew.Invariant
import Superstep.Proofs.Graph.CountingSort

/-!
# A superstep as a whole

When all workers are done and none of them has failed, the superstep has carried out one superstep
of the machine. The messages have arrived in an order that depends on the interleaving, but each
worker's own messages in the order of its nodes; with one worker this is the order of the machine.

Results:
* `Interleaving.completes`: what a superstep without a failure has done.
* `Interleaving.exists_cause`: the failure of a superstep has a cause.
* `Interleaving.failure_eq_none`: without a failing step and a panic of the tracker there is no
  failure.
-/

namespace Superstep

/-! ## Lists, worker by worker -/

section

variable {α β : Type}

theorem flatMap_range_length (list : List α) {byNumber : Nat → List β} {byItem : α → List β}
    (h : ∀ (k : Nat) (a : α), list[k]? = some a → byNumber k = byItem a) :
    (List.range list.length).flatMap byNumber = list.flatMap byItem := by
  induction list generalizing byNumber with
  | nil => rfl
  | cons a list ih =>
    rw [List.length_cons, List.range_succ_eq_map, List.flatMap_cons, List.flatMap_cons,
      List.flatMap_map, h 0 a rfl, ih fun k b hb => h (k + 1) b hb]

theorem sum_length_eq (byNumber : Nat → List β) (n : Nat) :
    ∑ k ∈ Finset.range n, (byNumber k).length = ((List.range n).flatMap byNumber).length := by
  induction n with
  | zero => rfl
  | succ n ih => rw [Finset.sum_range_succ, ih, List.range_succ, List.flatMap_append]; simp

end

/-! ## Shares -/

theorem Team.flatMap_share {W V M : Type} {p : Program W V M} {workers : List Worker}
    (h : Team p workers) (f : Frame V M) : workers.flatMap (p.share f) = p.nodes f := by
  have hnodes := h.tiles.flatMap_nodes
  rw [List.flatMap_map, Nat.sub_zero, ← List.range_eq_range'] at hnodes
  unfold Program.nodes
  rw [← hnodes, List.filter_flatMap]
  rfl

theorem Frame.Proper.card_active {W V M : Type} {p : Program W V M} {f : Frame V M}
    (h : f.Proper p) : (p.nodes f).length = f.active.card := by
  have hnodup : (p.nodes f).Nodup := List.nodup_range.filter _
  rw [← List.toFinset_card_of_nodup hnodup]
  congr 1
  ext i
  rw [List.mem_toFinset, Program.mem_nodes]
  exact ⟨And.right, fun hi => ⟨h.active_lt i hi, hi⟩⟩

/-! ## The end of a superstep -/

/-- What a superstep without a failure has done, when the messages have arrived in the given
    order. -/
structure Round.Completes {W V M T : Type} [Message M] (p : Program W V M) (t : Nat) (f : Frame V M)
    (arrived : List (NodeId × M)) (r : Round V M T) : Prop where
  flawless : p.Flawless f t
  perm : arrived.Perm (p.traffic f t)
  store : r.store.Holds p (t + 1) (p.after f t arrived)
  processed : r.tally.processed = f.active.card
  sent : r.tally.sent = arrived.length
  combined : r.tally.combined + p.reduction.left arrived = arrived.length
  activated : r.tally.activated = (p.after f t arrived).active.card

theorem NodeStore.Holds.card_current {W V M : Type} {p : Program W V M} {t : Nat} {f : Frame V M}
    {s : NodeStore V M} (h : s.Holds p t f) :
    (s.active.current t).card p.nodeCount = f.active.card := by
  unfold Bitset.card
  congr 1
  ext i
  rw [Finset.mem_filter, Finset.mem_range, h.has_current]
  exact ⟨And.right, fun hi => ⟨h.current.lt_of_has i ((h.has_current i).2 hi), hi⟩⟩

namespace Crew

variable {W V M T : Type}

theorem counts_eq_sum (c : Crew V M T) (n : Nat) :
    c.counts n = ⟨∑ k ∈ Finset.range n, (c.hands k).counts.processed,
      ∑ k ∈ Finset.range n, (c.hands k).counts.sent,
      ∑ k ∈ Finset.range n, (c.hands k).counts.combined,
      ∑ k ∈ Finset.range n, (c.hands k).counts.activated⟩ := by
  induction n with
  | zero => rfl
  | succ n ih =>
    rw [counts_succ, ih]
    simp only [Finset.sum_range_succ]
    rfl

variable [Message M] {job : Job W V M T} {t : Nat} {f : Frame V M} {workers : List Worker}
  {g : History M} {c : Crew V M T}

/-- The workers have gone through all their nodes. -/
structure Ended (job : Job W V M T) (t : Nat) (f : Frame V M) (workers : List Worker)
    (g : History M) (c : Crew V M T) : Prop where
  midway : Midway job t f workers g c
  team : Team job.program workers
  proper : f.Proper job.program
  stage : ∀ k < workers.length, (c.hands k).stage = .done false
  upTo : ∀ k w, workers[k]? = some w → UpTo job.program t f g k w []

theorem Midway.ended (hm : Midway job t f workers g c) (hc : Faults job t f workers c)
    (ht : Team job.program workers) (hf : f.Proper job.program) (hfinished : c.Finished workers)
    (hfailure : c.shared.failure = none) : Ended job t f workers g c := by
  have hstage := hc.done_false hfinished hfailure
  refine ⟨hm, ht, hf, hstage, ?_⟩
  intro k w hw
  have hatStage := hm.atStage k w hw
  rw [hstage k (List.getElem?_eq_some_iff.1 hw).1] at hatStage
  obtain ⟨rest, hu, rfl | haborted⟩ := hatStage
  · exact hu
  · exact (hc.not_aborted hfinished hfailure haborted).elim

namespace Ended

theorem finished_eq (h : Ended job t f workers g c) {k : Nat} {w : Worker}
    (hw : workers[k]? = some w) : g.finished k = job.program.share f w := by
  rw [← (h.upTo k w hw).split, List.append_nil]

theorem flatMap_finished (h : Ended job t f workers g c) :
    (List.range workers.length).flatMap g.finished = job.program.nodes f := by
  rw [flatMap_range_length workers fun _ _ hw => h.finished_eq hw, h.team.flatMap_share]

theorem flatMap_sent (h : Ended job t f workers g c) :
    (List.range workers.length).flatMap g.sent = job.program.traffic f t := by
  have hsent : ∀ k w, workers[k]? = some w →
      g.sent k = (job.program.share f w).flatMap (job.program.letters f t) := by
    intro k w hw
    rw [(h.upTo k w hw).sent_eq, h.finished_eq hw]
  rw [flatMap_range_length workers hsent]
  unfold Program.traffic
  rw [← h.team.flatMap_share, List.flatMap_assoc]

theorem exists_worker (h : Ended job t f workers g c) {i : Nat} (hi : i ∈ f.active) :
    ∃ (k : Nat) (w : Worker), workers[k]? = some w ∧ i ∈ job.program.share f w := by
  have hmem : i ∈ workers.flatMap (job.program.share f) := by
    rw [h.team.flatMap_share]
    exact Program.mem_nodes.2 ⟨h.proper.active_lt i hi, hi⟩
  obtain ⟨w, hw, hi⟩ := List.mem_flatMap.1 hmem
  obtain ⟨k, hk⟩ := List.getElem?_of_mem hw
  exact ⟨k, w, hk, hi⟩

theorem begun_iff (h : Ended job t f workers g c) (i : Nat) : g.Begun i ↔ i ∈ f.active := by
  constructor
  · rintro ⟨k, hk⟩
    cases hw : workers[k]? with
    | none =>
      rw [h.midway.idle k hw] at hk
      cases hk
    | some w => exact (Program.mem_share.1 ((h.midway.begun_le k w hw).subset hk)).2
  · intro hi
    obtain ⟨k, w, hw, hmem⟩ := h.exists_worker hi
    rw [← h.finished_eq hw] at hmem
    exact ⟨k, (h.midway.finished_le k).subset hmem⟩

theorem finished_iff (h : Ended job t f workers g c) (i : Nat) : g.Finished i ↔ i ∈ f.active := by
  constructor
  · rintro ⟨k, hk⟩
    exact (h.begun_iff i).1 ⟨k, (h.midway.finished_le k).subset hk⟩
  · intro hi
    obtain ⟨k, w, hw, hmem⟩ := h.exists_worker hi
    rw [← h.finished_eq hw] at hmem
    exact ⟨k, hmem⟩

theorem flawless (h : Ended job t f workers g c) : job.program.Flawless f t := by
  intro i hi
  obtain ⟨k, w, hw, hmem⟩ := h.exists_worker hi
  rw [← h.finished_eq hw] at hmem
  exact (h.upTo k w hw).flawless i hmem

theorem store (h : Ended job t f workers g c) :
    c.shared.store.Holds job.program (t + 1) (job.program.after f t g.arrived) := by
  refine h.midway.store.holds h.proper h.begun_iff h.finished_iff ?_
  intro i hi
  obtain ⟨k, w, hw, hmem⟩ := h.exists_worker hi
  exact ⟨k, w, hw, h.stage k (List.getElem?_eq_some_iff.1 hw).1, (Program.mem_share.1 hmem).1⟩

theorem arrived_perm (h : Ended job t f workers g c) :
    g.arrived.Perm (job.program.traffic f t) := by
  have hlog := (perm_flatMap_filter Prod.fst h.midway.logged).map Prod.snd
  rw [List.map_flatMap] at hlog
  rw [← h.flatMap_sent]
  exact hlog

/-- A worker that is alone has sent the messages in the order of the machine. -/
theorem arrived_eq (h : Ended job t f workers g c) (hone : workers.length = 1) :
    g.arrived = job.program.traffic f t := by
  have hall : g.log.filter (fun l => l.1 = 0) = g.log := by
    refine List.filter_eq_self.2 ?_
    intro l hl
    have hlt := h.midway.logged l hl
    simp only [decide_eq_true_eq]
    omega
  rw [← h.flatMap_sent, hone, List.range_one, List.flatMap_singleton]
  unfold History.sent History.arrived
  rw [hall]

/-- What the workers have counted together. -/
theorem round_tally (h : Ended job t f workers g c) :
    (c.round workers).tally = ⟨(job.program.nodes f).length, g.arrived.length,
      ∑ k ∈ Finset.range workers.length, (c.hands k).tally.combined,
      (c.shared.store.active.next t).card job.program.nodeCount⟩ := by
  have hcounts : ∀ k ∈ Finset.range workers.length, (c.hands k).counts = (c.hands k).tally := by
    intro k hk
    unfold Hand.counts
    rw [h.stage k (Finset.mem_range.1 hk)]
  have hsum : ∀ count : Tally → Nat, ∑ k ∈ Finset.range workers.length, count (c.hands k).counts =
      ∑ k ∈ Finset.range workers.length, count (c.hands k).tally := by
    intro count
    exact Finset.sum_congr rfl fun k hk => by rw [hcounts k hk]
  have hprocessed : ∑ k ∈ Finset.range workers.length, (c.hands k).tally.processed =
      (job.program.nodes f).length := by
    rw [← h.flatMap_finished, ← sum_length_eq]
    exact Finset.sum_congr rfl fun k hk => h.midway.processed k (Finset.mem_range.1 hk)
  have hsent : ∑ k ∈ Finset.range workers.length, (c.hands k).tally.sent = g.arrived.length := by
    rw [h.arrived_perm.length_eq, ← h.flatMap_sent, ← sum_length_eq]
    exact Finset.sum_congr rfl fun k hk => h.midway.sent k (Finset.mem_range.1 hk)
  show c.counts workers.length = _
  rw [counts_eq_sum, hsum Tally.processed, hsum Tally.sent, hsum Tally.combined,
    hsum Tally.activated, hprocessed, hsent, h.midway.activated]

theorem completes (h : Ended job t f workers g c) :
    (c.round workers).Completes job.program t f g.arrived where
  flawless := h.flawless
  perm := h.arrived_perm
  store := h.store
  processed := by rw [h.round_tally, ← h.proper.card_active]
  sent := by rw [h.round_tally]
  combined := by
    rw [h.round_tally]
    exact h.midway.combined
  activated := by
    rw [h.round_tally, ← h.store.card_current, ActiveSet.next_eq_current_succ]

end Ended

end Crew

/-! ## Interleavings -/

section

variable {W V M T : Type} [Message M] {job : Job W V M T} {t : Nat} {f : Frame V M}
  {workers : List Worker} {store : NodeStore V M} {tracker : T} {r : Round V M T}

/-- A superstep without a failure carries out the superstep of the machine. Only the order in which
    the messages arrive depends on the interleaving. -/
theorem Interleaving.completes (h : Interleaving job t workers store tracker r)
    (ht : Team job.program workers) (hf : f.Proper job.program)
    (hstore : store.Holds job.program t f) (hfailure : r.failure = none) :
    ∃ arrived, r.Completes job.program t f arrived ∧
      (workers.length = 1 → arrived = job.program.traffic f t) := by
  obtain ⟨c, hsteps, hfinished, rfl⟩ := h
  obtain ⟨⟨g, hm⟩, hc⟩ := Crew.midway_of_steps ht hstore hsteps
  have hended := hm.ended hc ht hf hfinished hfailure
  exact ⟨g.arrived, hended.completes, hended.arrived_eq⟩

/-- The failure of a superstep has a cause. -/
theorem Interleaving.exists_cause (h : Interleaving job t workers store tracker r)
    (ht : Team job.program workers) (hstore : store.Holds job.program t f) {e : RunError}
    (hfailure : r.failure = some e) : ∃ w ∈ workers, Cause job t f w e := by
  obtain ⟨c, hsteps, -, rfl⟩ := h
  exact (Crew.midway_of_steps ht hstore hsteps).2.cause e hfailure

/-- Without a failing step and a panic of the tracker there is no failure. -/
theorem Interleaving.failure_eq_none (h : Interleaving job t workers store tracker r)
    (ht : Team job.program workers) (hstore : store.Holds job.program t f)
    (hflawless : job.program.Flawless f t)
    (htracker : ∀ report state, (job.tracker.take report state).2 = none) : r.failure = none := by
  cases hfailure : r.failure with
  | none => rfl
  | some e =>
    obtain ⟨w, -, hcause⟩ := h.exists_cause ht hstore hfailure
    obtain ⟨before, i, after, hshare, -, hfail⟩ := hcause.exists_failure? htracker
    rw [hflawless i (Program.active_of_share hshare)] at hfail
    cases hfail

end

end Superstep
