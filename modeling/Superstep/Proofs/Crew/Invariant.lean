import Superstep.Proofs.Crew.Action

/-!
# The invariant of a superstep

`Crew.Midway` relates the workers of a superstep, and what they share, to the history of what they
have done: the storage follows the history, every worker stands where it has to, and the counts of
the workers add up to what the history says. `Crew.FailuresRecorded` and `Crew.Faults` say what
becomes of failures.

Results:
* `Midway.step`: every action of every worker preserves the invariant.
* `midway_of_steps`: it holds in every state that the workers can reach.
-/

namespace Superstep

/-- Where a worker stands depends only on its own part of the history. -/
theorem AtStage.congr {W V M T : Type} {job : Job W V M T} {t : Nat} {f : Frame V M}
    {g g' : History M} {k : Nat} {w : Worker} {aborted aborted' : Bool} {stage : Stage V M}
    (h : AtStage job t f g k w aborted stage) (hbegun : g'.begun k = g.begun k)
    (hfinished : g'.finished k = g.finished k) (hsent : g'.sent k = g.sent k)
    (haborted : aborted = true → aborted' = true) : AtStage job t f g' k w aborted' stage := by
  have hupTo : ∀ {rest}, UpTo job.program t f g k w rest → UpTo job.program t f g' k w rest := by
    intro rest hu
    exact ⟨by rw [hfinished]; exact hu.split, by rw [hbegun, hfinished]; exact hu.begun_eq,
      by rw [hsent, hfinished]; exact hu.sent_eq, by rw [hfinished]; exact hu.flawless⟩
  have hthrough : (∃ rest, UpTo job.program t f g k w rest ∧ (rest = [] ∨ aborted = true)) →
      ∃ rest, UpTo job.program t f g' k w rest ∧ (rest = [] ∨ aborted' = true) := by
    rintro ⟨rest, hu, hrest⟩
    exact ⟨rest, hupTo hu, hrest.imp_right haborted⟩
  cases stage with
  | waiting => exact hupTo h
  | between nodes => exact hupTo h
  | sending i outcome lost rest nodes =>
    obtain ⟨houtcome, made, hs⟩ := h
    exact ⟨houtcome, made, by rw [hfinished]; exact hs.split,
      by rw [hbegun, hfinished]; exact hs.begun_eq, by rw [hfinished]; exact hs.flawless,
      hs.attempts_eq, hs.lost_eq, by rw [hsent, hfinished]; exact hs.sent_eq⟩
  | counted i nodes => exact ⟨by rw [hfinished]; exact h.1, hupTo h.2⟩
  | reporting => exact hthrough h
  | clearing => exact hthrough h
  | failing e => exact h
  | recording e => exact h
  | done failed =>
    cases failed with
    | false => exact hthrough h
    | true => trivial

namespace Crew

variable {W V M T : Type}

/-- The nodes of the workers that are through. -/
def Cleared (workers : List Worker) (c : Crew V M T) (i : Nat) : Prop :=
  ∃ k w, workers[k]? = some w ∧ (c.hands k).stage = .done false ∧ i ∈ w.partition.nodes

/-- A worker that becomes through adds its nodes to those that have been removed. -/
theorem cleared_update_iff {workers : List Worker} {c : Crew V M T} {k : Nat} {w : Worker}
    (hw : workers[k]? = some w) (hstage : (c.hands k).stage ≠ .done false) (h : Hand V M)
    (s : Shared V M T) (i : Nat) :
    Cleared workers ⟨Function.update c.hands k h, s⟩ i ↔
      c.Cleared workers i ∨ (h.stage = .done false ∧ i ∈ w.partition.nodes) := by
  constructor
  · rintro ⟨j, v, hv, hdone, hi⟩
    by_cases hjk : j = k
    · subst hjk
      rw [hw] at hv
      cases hv
      exact .inr ⟨by simpa using hdone, hi⟩
    · exact .inl ⟨j, v, hv, by simpa [Function.update_of_ne hjk] using hdone, hi⟩
  · rintro (⟨j, v, hv, hdone, hi⟩ | ⟨hdone, hi⟩)
    · have hjk : j ≠ k := fun h => hstage (h ▸ hdone)
      exact ⟨j, v, hv, by simpa [Function.update_of_ne hjk] using hdone, hi⟩
    · exact ⟨k, w, hw, by simpa using hdone, hi⟩

theorem sum_of_others {n k : Nat} (hk : k < n) (count count' : Nat → Nat)
    (hothers : ∀ j, j ≠ k → count' j = count j) :
    ∑ j ∈ Finset.range n, count' j + count k = ∑ j ∈ Finset.range n, count j + count' k := by
  have hmem : k ∈ Finset.range n := Finset.mem_range.2 hk
  have herase : ∑ j ∈ (Finset.range n).erase k, count' j =
      ∑ j ∈ (Finset.range n).erase k, count j :=
    Finset.sum_congr rfl fun j hj => hothers j (Finset.ne_of_mem_erase hj)
  rw [← Finset.add_sum_erase _ _ hmem, ← Finset.add_sum_erase _ _ hmem, herase]
  omega

theorem sum_update {n k : Nat} (hk : k < n) (hands : Nat → Hand V M) (h : Hand V M)
    (count : Hand V M → Nat) :
    ∑ j ∈ Finset.range n, count (Function.update hands k h j) + count (hands k) =
      ∑ j ∈ Finset.range n, count (hands j) + count h := by
  have hsum := sum_of_others hk (fun j => count (hands j))
    (fun j => count (Function.update hands k h j)) fun j hj => by rw [Function.update_of_ne hj]
  rwa [Function.update_self] at hsum

/-- The storage, the workers and their counts agree with the history. -/
structure Midway [Message M] (job : Job W V M T) (t : Nat) (f : Frame V M) (workers : List Worker)
    (g : History M) (c : Crew V M T) : Prop where
  store : c.shared.store.Midway job.program t f g (c.Cleared workers)
  atStage : ∀ k w, workers[k]? = some w →
    AtStage job t f g k w c.shared.aborted (c.hands k).stage
  finished_le : ∀ k, g.finished k <+: g.begun k
  begun_le : ∀ k w, workers[k]? = some w → g.begun k <+: job.program.share f w
  idle : ∀ k, workers[k]? = none → g.begun k = []
  logged : ∀ l ∈ g.log, l.1 < workers.length
  processed : ∀ k < workers.length, (c.hands k).tally.processed = (g.finished k).length
  sent : ∀ k < workers.length, (c.hands k).tally.sent = (g.sent k).length
  combined : ∑ k ∈ Finset.range workers.length, (c.hands k).tally.combined +
    job.reduction.left g.arrived = g.arrived.length
  activated : ∑ k ∈ Finset.range workers.length, (c.hands k).tally.activated =
    (c.shared.store.active.next t).card job.program.nodeCount

variable [Message M] {job : Job W V M T} {t : Nat} {f : Frame V M} {workers : List Worker}

/-- At the start of a superstep nothing has been done. -/
theorem midway_start (store : NodeStore V M) (tracker : T) (h : store.Holds job.program t f) :
    Midway job t f workers .none (.start store tracker) where
  store := h.midway.congr fun i =>
    ⟨fun ⟨_, _, _, hdone, _⟩ => (by cases hdone), False.elim⟩
  atStage := fun k w _ => ⟨rfl, rfl, rfl, fun i hi => by cases hi⟩
  finished_le := fun _ => List.prefix_rfl
  begun_le := fun _ _ _ => List.nil_prefix
  idle := fun _ _ => rfl
  logged := fun l hl => by cases hl
  processed := fun _ _ => rfl
  sent := fun _ _ => rfl
  combined := by
    simp [start, Hand.start, Tally.zero, History.arrived, History.none, Reduction.left, targets]
  activated := by
    have hnone : (store.active.next t).card job.program.nodeCount = 0 :=
      Finset.card_eq_zero.2 (Finset.filter_eq_empty_iff.2 fun i _ => h.has_next i)
    simp [start, Shared.start, Hand.start, Tally.zero, hnone]

/-! ## One action -/

/-- What a worker relies on for its next action. -/
theorem Midway.workerInvariant {g : History M} {c : Crew V M T} (hm : Midway job t f workers g c)
    (ht : Team job.program workers) {k : Nat} {w : Worker} (hw : workers[k]? = some w)
    (hstage : (c.hands k).stage ≠ .done false) :
    WorkerInvariant job t f k w g (c.Cleared workers) (c.hands k) c.shared where
  small := ht.small
  stop_le := (ht.tiles.le_of_mem (List.mem_map_of_mem (List.mem_of_getElem? hw))).2
  position?_eq := ht.position?_eq w (List.mem_of_getElem? hw)
  store := hm.store
  atStage := hm.atStage k w hw
  finished_le := hm.finished_le k
  begun_le := hm.begun_le k w hw
  fresh := fun i hi ⟨j, hj⟩ => by
    cases hv : workers[j]? with
    | none =>
      rw [hm.idle j hv] at hj
      cases hj
    | some v =>
      have hshare := (hm.begun_le j v hv).subset hj
      rw [← ht.eq_of_mem hv hw (Program.mem_share.1 hshare).1 hi]
      exact hj
  uncleared := fun i hi ⟨j, v, hv, hdone, hiv⟩ => by
    rw [ht.eq_of_mem hv hw hiv hi] at hdone
    exact hstage hdone

/-- An action of one worker preserves the invariant. -/
theorem Midway.act {g g' : History M} {c : Crew V M T} (hm : Midway job t f workers g c) {k : Nat}
    {w : Worker} (hw : workers[k]? = some w) (hstage : (c.hands k).stage ≠ .done false)
    {h : Hand V M} {s : Shared V M T}
    (hd : ActionEffect job t f k w (c.Cleared workers) g (c.hands k) c.shared g' h s) :
    Midway job t f workers g' ⟨Function.update c.hands k h, s⟩ := by
  have hk : k < workers.length := (List.getElem?_eq_some_iff.1 hw).1
  have hcounts : ∀ j, ∀ (count : Hand V M → Nat) (count' : History M → Nat → Nat),
      (∀ j ≠ k, count' g' j = count' g j) → count (c.hands j) = count' g j →
        count h + count' g k = count (c.hands k) + count' g' k →
          count (c.hands k) = count' g k → count (Function.update c.hands k h j) = count' g' j := by
    intro j count count' hothers hj hdiff hkcount
    by_cases hjk : j = k
    · rw [hjk, Function.update_self]
      omega
    · rw [Function.update_of_ne hjk, hothers j hjk]
      exact hj
  have hother : ∀ {j}, workers[j]? = none → j ≠ k := by
    intro j hj hjk
    rw [hjk, hw] at hj
    cases hj
  exact {
    store := hd.store.congr (cleared_update_iff hw hstage h s)
    atStage := by
      intro j v hv
      show AtStage job t f g' j v s.aborted (Function.update c.hands k h j).stage
      by_cases hjk : j = k
      · subst hjk
        rw [hw] at hv
        cases hv
        rw [Function.update_self]
        exact hd.atStage
      · rw [Function.update_of_ne hjk]
        obtain ⟨hbegun, hfinished, hsent⟩ := hd.others j hjk
        exact (hm.atStage j v hv).congr hbegun hfinished hsent hd.aborted
    finished_le := by
      intro j
      by_cases hjk : j = k
      · rw [hjk]
        exact hd.finished_le
      · rw [(hd.others j hjk).1, (hd.others j hjk).2.1]
        exact hm.finished_le j
    begun_le := by
      intro j v hv
      by_cases hjk : j = k
      · subst hjk
        rw [hw] at hv
        cases hv
        exact hd.begun_le
      · rw [(hd.others j hjk).1]
        exact hm.begun_le j v hv
    idle := by
      intro j hj
      rw [(hd.others j (hother hj)).1]
      exact hm.idle j hj
    logged := by
      intro l hl
      rcases hd.logged l hl with hl | hl
      · exact hm.logged l hl
      · rw [hl]
        exact hk
    processed := by
      intro j hj
      exact hcounts j (fun h => h.tally.processed) (fun g j => (g.finished j).length)
        (fun j hjk => by simp only [(hd.others j hjk).2.1]) (hm.processed j hj) hd.processed
        (hm.processed k hk)
    sent := by
      intro j hj
      exact hcounts j (fun h => h.tally.sent) (fun g j => (g.sent j).length)
        (fun j hjk => by simp only [(hd.others j hjk).2.2]) (hm.sent j hj) hd.sent (hm.sent k hk)
    combined := by
      have hsum := sum_update hk c.hands h fun h => h.tally.combined
      have hold := hm.combined
      have hnew := hd.combined
      simp only at hsum ⊢
      omega
    activated := by
      have hsum := sum_update hk c.hands h fun h => h.tally.activated
      have hold := hm.activated
      have hnew := hd.activated
      simp only at hsum ⊢
      omega }

/-! ## Failures -/

/-- What an action does about failures: nothing that concerns the other workers, or it makes a
    failure known, or it records one. -/
theorem act_faults {w : Worker} {h h' : Hand V M} {s s' : Shared V M T}
    (hact : w.act job t h s = some (h', s')) :
    (s'.aborted = s.aborted ∧ s'.failure = s.failure ∧ (∀ e, h.stage ≠ .recording e) ∧
        h'.stage ≠ .done true) ∨
      (∃ e, h'.stage = .recording e ∧ s'.failure = s.failure) ∨
      (∃ e, h.stage = .recording e ∧ h'.stage = .done true ∧
        s'.failure = s.failure.or (some e)) := by
  have hresume : ∀ {x : Sweep V M T} {stage : Stage V M}, s.resume t x stage = (h', s') →
      stage ≠ .done true →
        s'.aborted = s.aborted ∧ s'.failure = s.failure ∧ h'.stage ≠ .done true := by
    intro x stage hresume hstage
    cases hresume
    refine ⟨rfl, rfl, ?_⟩
    cases x.failure with
    | none => exact hstage
    | some e => nofun
  cases Worker.acts_of_act hact with
  | look hstage => exact .inl ⟨rfl, rfl, by simp [hstage], nofun⟩
  | stop hstage => exact .inl ⟨rfl, rfl, by simp [hstage], nofun⟩
  | pick hstage _ hpick =>
    unfold Worker.pick at hpick
    split at hpick <;>
    · cases hpick
      exact .inl ⟨rfl, rfl, by simp [hstage], nofun⟩
  | attempt hstage => exact .inl ⟨rfl, rfl, by simp [hstage], nofun⟩
  | fail hstage => exact .inl ⟨rfl, rfl, by simp [hstage], nofun⟩
  | count hstage _ hcount =>
    obtain ⟨haborted, hfailure, hnew⟩ := hresume hcount nofun
    exact .inl ⟨haborted, hfailure, by simp [hstage], hnew⟩
  | batch hstage hbatch =>
    obtain ⟨haborted, hfailure, hnew⟩ := hresume hbatch nofun
    exact .inl ⟨haborted, hfailure, by simp [hstage], hnew⟩
  | rest hstage hrest =>
    obtain ⟨haborted, hfailure, hnew⟩ := hresume hrest nofun
    exact .inl ⟨haborted, hfailure, by simp [hstage], hnew⟩
  | clear hstage => exact .inl ⟨rfl, rfl, by simp [hstage], nofun⟩
  | abort hstage => exact .inr (.inl ⟨_, rfl, rfl⟩)
  | record hstage => exact .inr (.inr ⟨_, hstage, rfl, rfl⟩)

/-- What is known of failures: the workers are told to stop only for a failure that is recorded or
    about to be, and a failure is recorded if and only if some worker has failed. -/
structure FailuresRecorded (workers : List Worker) (c : Crew V M T) : Prop where
  aborted : c.shared.aborted = true → c.shared.failure.isSome ∨
    ∃ k < workers.length, ∃ e, (c.hands k).stage = .recording e
  failed_iff : c.shared.failure.isSome ↔ ∃ k < workers.length, (c.hands k).stage = .done true

theorem FailuresRecorded.act {c : Crew V M T} (hc : FailuresRecorded workers c) {k : Nat}
    {w : Worker} (hw : workers[k]? = some w) {h : Hand V M} {s : Shared V M T}
    (hact : w.act job t (c.hands k) c.shared = some (h, s)) :
    FailuresRecorded workers ⟨Function.update c.hands k h, s⟩ := by
  have hk : k < workers.length := (List.getElem?_eq_some_iff.1 hw).1
  have hnotDone : (c.hands k).stage ≠ .done true := by
    intro hdone
    unfold Worker.act at hact
    rw [hdone] at hact
    cases hact
  -- a worker that has not just recorded its failure has not become a failed one
  have hfailed : h.stage ≠ .done true →
      ((∃ j < workers.length, (Function.update c.hands k h j).stage = .done true) ↔
        ∃ j < workers.length, (c.hands j).stage = .done true) := by
    intro hnew
    refine exists_congr fun j => and_congr_right fun _ => ?_
    by_cases hjk : j = k
    · subst hjk
      rw [Function.update_self]
      exact iff_of_false hnew hnotDone
    · rw [Function.update_of_ne hjk]
  rcases act_faults hact with ⟨haborted, hfailure, hold, hnew⟩ | ⟨e, hnew, hfailure⟩ |
    ⟨e, hold, hnew, hfailure⟩
  · constructor
    · intro hs
      show s.failure.isSome ∨ _
      rw [hfailure]
      refine (hc.aborted (haborted ▸ hs)).imp_right fun ⟨j, hj, e, hstage⟩ => ⟨j, hj, e, ?_⟩
      have hjk : j ≠ k := fun h => hold e (h ▸ hstage)
      simpa [Function.update_of_ne hjk] using hstage
    · show s.failure.isSome ↔ _
      rw [hfailure, hc.failed_iff]
      exact (hfailed hnew).symm
  · constructor
    · exact fun _ => .inr ⟨k, hk, e, by simpa using hnew⟩
    · show s.failure.isSome ↔ _
      rw [hfailure, hc.failed_iff]
      exact (hfailed (by rw [hnew]; nofun)).symm
  · have hsome : s.failure.isSome := by
      rw [hfailure]
      cases c.shared.failure <;> rfl
    exact ⟨fun _ => .inl hsome, iff_of_true hsome ⟨k, hk, by simpa using hnew⟩⟩

omit [Message M] in
theorem failuresRecorded_start (store : NodeStore V M) (tracker : T) :
    FailuresRecorded workers (.start store tracker) :=
  ⟨nofun, iff_of_false nofun fun ⟨_, _, hdone⟩ => nomatch hdone⟩

theorem failuresRecorded_of_steps {store : NodeStore V M} {tracker : T} {c : Crew V M T}
    (hsteps : Relation.ReflTransGen (Step job t workers) (.start store tracker) c) :
    FailuresRecorded workers c := by
  induction hsteps with
  | refl => exact failuresRecorded_start store tracker
  | tail _ hstep ih =>
    obtain ⟨hw, hact⟩ := hstep
    exact ih.act hw hact

omit [Message M] in
theorem FailuresRecorded.done_false {c : Crew V M T} (hc : FailuresRecorded workers c)
    (hfinished : c.Finished workers) (hfailure : c.shared.failure = none) :
    ∀ k < workers.length, (c.hands k).stage = .done false := by
  intro k hk
  obtain ⟨failed, hstage⟩ := hfinished k hk
  cases failed with
  | false => exact hstage
  | true =>
    have hsome := hc.failed_iff.2 ⟨k, hk, hstage⟩
    rw [hfailure] at hsome
    cases hsome

omit [Message M] in
theorem FailuresRecorded.not_aborted {c : Crew V M T} (hc : FailuresRecorded workers c)
    (hfinished : c.Finished workers)
    (hfailure : c.shared.failure = none) : ¬ c.shared.aborted = true := by
  intro haborted
  rcases hc.aborted haborted with hsome | ⟨k, hk, e, hrecording⟩
  · rw [hfailure] at hsome
    cases hsome
  · rw [hc.done_false hfinished hfailure k hk] at hrecording
    cases hrecording

/-- What is recorded has a cause. -/
structure Faults (job : Job W V M T) (t : Nat) (f : Frame V M) (workers : List Worker)
    (c : Crew V M T) : Prop extends FailuresRecorded workers c where
  cause : ∀ e, c.shared.failure = some e → ∃ w ∈ workers, Cause job t f w e

theorem Faults.act {g : History M} {c : Crew V M T} (hc : Faults job t f workers c)
    (hm : Midway job t f workers g c) {k : Nat} {w : Worker} (hw : workers[k]? = some w)
    {h : Hand V M} {s : Shared V M T} (hact : w.act job t (c.hands k) c.shared = some (h, s)) :
    Faults job t f workers ⟨Function.update c.hands k h, s⟩ := by
  refine ⟨hc.toFailuresRecorded.act hw hact, fun e he => ?_⟩
  rcases act_faults hact with ⟨-, hfailure, -, -⟩ | ⟨_, -, hfailure⟩ | ⟨e', hold, -, hfailure⟩
  · exact hc.cause e (hfailure ▸ he)
  · exact hc.cause e (hfailure ▸ he)
  · have hatStage := hm.atStage k w hw
    rw [hold] at hatStage
    rw [hfailure] at he
    cases hfirst : c.shared.failure with
    | none =>
      rw [hfirst] at he
      cases he
      exact ⟨w, List.mem_of_getElem? hw, hatStage⟩
    | some earlier =>
      rw [hfirst] at he
      cases he
      exact hc.cause _ hfirst

/-! ## All actions -/

/-- After the next action of a worker the invariant holds for a longer history, in which what the
    action sends is the last to arrive. -/
theorem Midway.extend {g : History M} {c : Crew V M T} (hm : Midway job t f workers g c)
    (ht : Team job.program workers) {k : Nat} {w : Worker} (hw : workers[k]? = some w)
    {h : Hand V M} {s : Shared V M T}
    (hact : w.act job t (c.hands k) c.shared = some (h, s)) :
    ∃ g', Midway job t f workers g' ⟨Function.update c.hands k h, s⟩ ∧
      g'.arrived = g.arrived ++ ((c.hands k).posting? job.graph.nodeCount).toList := by
  have hstage : (c.hands k).stage ≠ .done false := fun hdone => by
    unfold Worker.act at hact
    rw [hdone] at hact
    cases hact
  obtain ⟨g', heffect, harrived⟩ := (hm.workerInvariant ht hw hstage).act hact
  exact ⟨g', hm.act hw hstage heffect, harrived⟩

/-- Every action of every worker preserves the invariant. -/
theorem Midway.step {g : History M} {c c' : Crew V M T} (hm : Midway job t f workers g c)
    (hc : Faults job t f workers c) (ht : Team job.program workers)
    (hstep : Step job t workers c c') :
    (∃ g', Midway job t f workers g' c') ∧ Faults job t f workers c' := by
  obtain ⟨hw, hact⟩ := hstep
  obtain ⟨g', hm', -⟩ := hm.extend ht hw hact
  exact ⟨⟨g', hm'⟩, hc.act hm hw hact⟩

/-- The invariant holds in every state that the workers can reach. -/
theorem midway_of_steps (ht : Team job.program workers) {store : NodeStore V M}
    (hstore : store.Holds job.program t f) {tracker : T} {c : Crew V M T}
    (hsteps : Relation.ReflTransGen (Step job t workers) (.start store tracker) c) :
    (∃ g, Midway job t f workers g c) ∧ Faults job t f workers c := by
  induction hsteps with
  | refl =>
    exact ⟨⟨_, midway_start store tracker hstore⟩, failuresRecorded_start store tracker, nofun⟩
  | tail _ hstep ih =>
    obtain ⟨⟨g, hm⟩, hc⟩ := ih
    exact hm.step hc ht hstep

end Crew

end Superstep
