import Mathlib.Algebra.Order.Floor.Div
import Superstep.Proofs.Crew.Superstep

/-!
# What the workers of a superstep report

A worker reports after every full batch, and once more when it is through with its nodes. An
execution of the workers of a superstep is followed together with the list of these calls
(`Crew.Traces`): which worker has made each of them, and about how many nodes.

As long as no call makes the tracker panic (`Tracker.panics`), what a worker has reported and what
it has not yet reported are together the nodes that it has executed (`Hand.Balanced`). A worker that
fails keeps the rest to itself, and so do the nodes that it has not executed.

Results:
* `Crew.Traces.tracker_eq`: the calls are all that the tracker sees of the workers.
* `Crew.Traces.panics_eq_nil`: which trackers do not panic.
* `Crew.Traces.accounted`: how many calls there are, and how many nodes they are about.
-/

namespace Superstep

namespace Tracker

variable {T : Type}

/-- What a tracker becomes when it takes one report after the other. -/
def replay (tracker : Tracker T) (reports : List Report) (state : T) : T :=
  reports.foldl (fun state report => (tracker.take report state).1) state

/-- The panics of a tracker that takes one report after the other. -/
def panics (tracker : Tracker T) : List Report → T → List PanicPayload
  | [], _ => []
  | report :: reports, state =>
    (tracker.take report state).2.toList ++ tracker.panics reports (tracker.take report state).1

theorem replay_append (tracker : Tracker T) (reports reports' : List Report) (state : T) :
    tracker.replay (reports ++ reports') state =
      tracker.replay reports' (tracker.replay reports state) :=
  List.foldl_append

theorem panics_append (tracker : Tracker T) (reports reports' : List Report) (state : T) :
    tracker.panics (reports ++ reports') state =
      tracker.panics reports state ++ tracker.panics reports' (tracker.replay reports state) := by
  induction reports generalizing state with
  | nil => rfl
  | cons report reports ih =>
    rw [List.cons_append, panics, panics, ih, List.append_assoc]
    rfl

theorem panics_singleton (tracker : Tracker T) (report : Report) (state : T) :
    tracker.panics [report] state = (tracker.take report state).2.toList :=
  List.append_nil _

theorem panics_of_quiet {tracker : Tracker T}
    (hquiet : ∀ report state, (tracker.take report state).2 = none) (reports : List Report)
    (state : T) : tracker.panics reports state = [] := by
  induction reports generalizing state with
  | nil => rfl
  | cons report reports ih => rw [panics, hquiet, ih, Option.toList_none, List.nil_append]

end Tracker

/-- A call of the tracker by a worker, and the number of nodes that it is about. -/
structure Call where
  worker : Nat
  amount : Nat
deriving DecidableEq

namespace Call

/-- What the tracker sees of a call. -/
def report (c : Call) : Report := .logProgress c.amount

/-- The number of nodes that calls are about together. -/
def total (calls : List Call) : Nat := (calls.map Call.amount).sum

/-- The calls of worker `k`. -/
def ofWorker (calls : List Call) (k : Nat) : List Call := calls.filter (·.worker = k)

theorem total_cons (call : Call) (calls : List Call) :
    total (call :: calls) = call.amount + total calls :=
  List.sum_cons

@[simp] theorem total_append (calls calls' : List Call) :
    total (calls ++ calls') = total calls + total calls' := by
  simp [total]

/-- The call of a worker that reports, if it reports. -/
def due (k : Nat) (amount : Option Nat) : List Call := amount.toList.map (Call.mk k)

theorem ofWorker_append_due_self (calls : List Call) (k : Nat) (amount : Option Nat) :
    ofWorker (calls ++ due k amount) k = ofWorker calls k ++ due k amount := by
  cases amount <;> simp [ofWorker, due]

theorem ofWorker_append_due_of_ne (calls : List Call) {j k : Nat} (h : j ≠ k)
    (amount : Option Nat) : ofWorker (calls ++ due k amount) j = ofWorker calls j := by
  cases amount <;> simp [ofWorker, due, h.symm]

/-- The calls of all workers, worker by worker. -/
theorem total_eq_sum {calls : List Call} {n : Nat} (h : ∀ call ∈ calls, call.worker < n) :
    total calls = ∑ k ∈ Finset.range n, total (ofWorker calls k) := by
  induction calls with
  | nil => simp [total, ofWorker]
  | cons call calls ih =>
    obtain ⟨hcall, hcalls⟩ := List.forall_mem_cons.1 h
    have hhead : ∀ k, total (ofWorker (call :: calls) k) =
        (if k = call.worker then call.amount else 0) + total (ofWorker calls k) := by
      intro k
      by_cases hk : k = call.worker
      · simp [ofWorker, total, hk]
      · simp [ofWorker, total, hk, Ne.symm hk]
    have hsum : ∑ k ∈ Finset.range n, (if k = call.worker then call.amount else 0) =
        call.amount := by
      rw [Finset.sum_ite_eq' _ _ fun _ => call.amount, if_pos (Finset.mem_range.2 hcall)]
    simp only [hhead, Finset.sum_add_distrib, hsum, ← ih hcalls]
    simp [total]

end Call

/-! ## One worker -/

namespace Hand

variable {V M : Type}

/-- What the next action of a worker reports, if it reports anything. -/
def due? (batchSize : Nat) (h : Hand V M) : Option Nat :=
  match h.stage with
  | .counted _ _ => if h.unreported ≥ batchSize then some h.unreported else none
  | .reporting => if h.unreported > 0 then some h.unreported else none
  | _ => none

/-- Where a worker goes on after a report. -/
def onward (h : Hand V M) : Stage V M :=
  match h.stage with
  | .counted _ nodes => .between nodes
  | .reporting => .clearing
  | stage => stage

/-- A worker after its report. -/
def relieved (h : Hand V M) : Hand V M := ⟨h.onward, h.tally, 0⟩

/-- The error of a worker when the tracker panics at its report: the node that has been executed
    last is blamed for it until the worker is through with its nodes. -/
def blame (t : Nat) (h : Hand V M) (payload : PanicPayload) : RunError :=
  match h.stage with
  | .counted i _ => .computationPanicked (.ofIndex i) t payload.message
  | _ => .workerPanicked payload.message

/-- A worker after its report, at which the tracker may have panicked. -/
def answered (t : Nat) (h : Hand V M) : Option PanicPayload → Hand V M
  | none => h.relieved
  | some payload => { h with stage := .failing (h.blame t payload) }

theorem due?_cases {batchSize n : Nat} {h : Hand V M} (hdue : h.due? batchSize = some n) :
    n = h.unreported ∧ ((∃ i nodes, h.stage = .counted i nodes ∧ batchSize ≤ h.unreported) ∨
      h.stage = .reporting ∧ 0 < h.unreported) := by
  unfold due? at hdue
  split at hdue
  · next hstage =>
    split at hdue
    · next hfull =>
      cases hdue
      exact ⟨rfl, .inl ⟨_, _, hstage, hfull⟩⟩
    · cases hdue
  · next hstage =>
    split at hdue
    · next hsome =>
      cases hdue
      exact ⟨rfl, .inr ⟨hstage, hsome⟩⟩
    · cases hdue
  · cases hdue

theorem lt_of_not_due {batchSize i : Nat} {nodes : List Nat} {h : Hand V M}
    (hstage : h.stage = .counted i nodes) (hdue : h.due? batchSize = none) :
    h.unreported < batchSize := by
  unfold due? at hdue
  rw [hstage] at hdue
  simpa using hdue

theorem eq_zero_of_not_due {batchSize : Nat} {h : Hand V M} (hstage : h.stage = .reporting)
    (hdue : h.due? batchSize = none) : h.unreported = 0 := by
  unfold due? at hdue
  rw [hstage] at hdue
  simpa using hdue

end Hand

namespace Worker

variable {W V M T : Type} {job : Job W V M T} {t : Nat} {w : Worker} {h : Hand V M}
  {s : Shared V M T}

theorem reportBatch_of_not_due {i : Nat} {nodes : List Nat} (hstage : h.stage = .counted i nodes)
    (hdue : h.due? job.batchSize = none) (node : NodeId) (s : Shared V M T) :
    reportBatch job t node (s.sweep t h) = s.sweep t h :=
  if_neg (Nat.not_le_of_lt (Hand.lt_of_not_due hstage hdue))

theorem reportRest_of_not_due (hstage : h.stage = .reporting) (hdue : h.due? job.batchSize = none)
    (s : Shared V M T) : reportRest job (s.sweep t h) = s.sweep t h :=
  if_neg (Nat.not_lt.2 (Hand.eq_zero_of_not_due hstage hdue).le)

variable [Message M]

/-- A worker reports what is due, and fails if the tracker panics. -/
theorem act_of_due {n : Nat} (hdue : h.due? job.batchSize = some n) :
    w.act job t h s = some (h.answered t (job.tracker.take (.logProgress n) s.tracker).2,
      { s with tracker := (job.tracker.take (.logProgress n) s.tracker).1 }) := by
  obtain ⟨rfl, ⟨i, nodes, hstage, hfull⟩ | ⟨hstage, hsome⟩⟩ := Hand.due?_cases hdue
  · unfold act Hand.answered Hand.relieved Hand.onward Hand.blame reportBatch
    rw [hstage]
    simp only
    rw [if_pos (show (s.sweep t h).unreported ≥ job.batchSize from hfull),
      show (s.sweep t h).tracker = s.tracker from rfl,
      show (s.sweep t h).unreported = h.unreported from rfl]
    rcases job.tracker.take (.logProgress h.unreported) s.tracker with ⟨state, _ | payload⟩ <;>
    · simp only
      exact congrArg some (Shared.resume_eq s h rfl _)
  · unfold act Hand.answered Hand.relieved Hand.onward Hand.blame reportRest
    rw [hstage]
    simp only
    rw [if_pos (show (s.sweep t h).unreported > 0 from hsome),
      show (s.sweep t h).tracker = s.tracker from rfl,
      show (s.sweep t h).unreported = h.unreported from rfl]
    rcases job.tracker.take (.logProgress h.unreported) s.tracker with ⟨state, _ | payload⟩ <;>
    · simp only
      exact congrArg some (Shared.resume_eq s h rfl _)

/-- A worker that has nothing to report has nothing to do with the tracker. -/
theorem act_of_not_due (hdue : h.due? job.batchSize = none) (tracker : T) :
    w.act job t h { s with tracker } =
      (w.act job t h s).map fun x => (x.1, { x.2 with tracker }) := by
  unfold act
  cases hstage : h.stage with
  | waiting => rfl
  | between nodes =>
    cases nodes with
    | nil => rfl
    | cons i nodes =>
      simp only
      split
      · rfl
      · unfold pick
        simp only [Option.map_some, Option.some.injEq]
        split <;> rfl
  | sending i outcome lost rest nodes =>
    cases rest with
    | cons a rest => rfl
    | nil =>
      simp only
      split <;> rfl
  | counted i nodes =>
    simp only [reportBatch_of_not_due hstage hdue]
    rfl
  | reporting =>
    simp only [reportRest_of_not_due hstage hdue]
    rfl
  | clearing => rfl
  | failing e => rfl
  | recording e => rfl
  | done failed => rfl

theorem tracker_of_not_due (hdue : h.due? job.batchSize = none) {h' : Hand V M}
    {s' : Shared V M T} (hact : w.act job t h s = some (h', s')) : s'.tracker = s.tracker := by
  have hsame := act_of_not_due (w := w) (t := t) (s := s) hdue s.tracker
  rw [hact] at hsame
  exact congrArg (fun x => x.2.tracker) (Option.some.inj hsame)

end Worker

theorem Outbox.processed_attempt {M : Type} [Message M] (c : Channel M) (o : Outbox M)
    (a : Attempt M) : (o.attempt c a).tally.processed = o.tally.processed := by
  cases a with
  | message target message =>
    show (o.sendTo c target message).tally.processed = _
    unfold sendTo
    split
    · rfl
    · split
      · rfl
      · simp only
        split
        · exact (activate_frame _ _).2.1
        · rfl
  | breakOff fault unread =>
    unfold attempt
    simp only
    split <;> rfl

theorem Shared.processed_settle {V M T : Type} (s : Shared V M T) (t : Nat) (h : Hand V M) (i : Nat)
    (halt : Bool) :
    (Worker.settle (s.sweep t h) i halt).out.tally.processed = h.tally.processed + 1 := by
  cases halt with
  | true => rfl
  | false => exact congrArg (· + 1) (Outbox.activate_frame _ i).2.1

namespace Hand

variable {W V M T : Type} {batchSize share : Nat} {mine : List Call}

/-- What worker stands for with the calls that it has made, and with the nodes that it has not yet
    reported: `share` is the number of its active nodes. -/
def Keeps (batchSize share : Nat) (mine : List Call) (h : Hand V M) : Prop :=
  match h.stage with
  | .waiting | .between _ | .sending .. | .reporting =>
    Call.total mine = batchSize * mine.length ∧ h.unreported < batchSize
  | .counted .. => Call.total mine = batchSize * mine.length ∧ h.unreported ≤ batchSize
  | .clearing | .done false => h.unreported = 0 ∧ mine.length = h.tally.processed ⌈/⌉ batchSize
  | .failing _ | .recording _ | .done true => h.tally.processed < share

/-- The calls of a worker agree with what it has executed. -/
structure Balanced (batchSize share : Nat) (mine : List Call) (h : Hand V M) : Prop where
  total : Call.total mine + h.unreported = h.tally.processed
  keeps : h.Keeps batchSize share mine

theorem balanced_start (hbatch : 0 < batchSize) :
    (start : Hand V M).Balanced batchSize share [] :=
  ⟨rfl, rfl, hbatch⟩

theorem Balanced.due_le {h : Hand V M} (hb : h.Balanced batchSize share mine)
    (hbatch : 0 < batchSize) {n : Nat} (hdue : h.due? batchSize = some n) :
    0 < n ∧ n ≤ batchSize := by
  have hkeeps := hb.keeps
  unfold Keeps at hkeeps
  obtain ⟨rfl, ⟨i, nodes, hstage, hfull⟩ | ⟨hstage, hsome⟩⟩ := due?_cases hdue
  · rw [hstage] at hkeeps
    exact ⟨by omega, hkeeps.2⟩
  · rw [hstage] at hkeeps
    exact ⟨hsome, hkeeps.2.le⟩

/-- A report keeps the balance. -/
theorem Balanced.relieved {h : Hand V M} (hb : h.Balanced batchSize share mine)
    (hbatch : 0 < batchSize) {n : Nat} (hdue : h.due? batchSize = some n) (k : Nat) :
    h.relieved.Balanced batchSize share (mine ++ Call.due k (some n)) := by
  have htotal := hb.total
  have hkeeps := hb.keeps
  have hlength : (mine ++ Call.due k (some n)).length = mine.length + 1 := by simp [Call.due]
  have hsum : Call.total (mine ++ Call.due k (some n)) = Call.total mine + n := by
    simp [Call.due, Call.total]
  unfold Keeps at hkeeps
  obtain ⟨rfl, ⟨i, nodes, hstage, hfull⟩ | ⟨hstage, hsome⟩⟩ := due?_cases hdue
  · rw [hstage] at hkeeps
    refine ⟨by rw [hsum]; exact htotal, ?_⟩
    unfold Keeps Hand.relieved onward
    rw [hstage, hsum, hlength]
    refine ⟨?_, hbatch⟩
    rw [Nat.mul_succ, hkeeps.1]
    have := hkeeps.2
    omega
  · rw [hstage] at hkeeps
    refine ⟨by rw [hsum]; exact htotal, ?_⟩
    unfold Keeps Hand.relieved onward
    rw [hstage, hlength]
    refine ⟨rfl, ?_⟩
    -- the last batch is not empty and not full
    show _ = h.tally.processed ⌈/⌉ batchSize
    rw [← htotal, hkeeps.1, Nat.ceilDiv_eq_add_pred_div]
    have hrest : batchSize * mine.length + h.unreported + batchSize - 1 =
        batchSize * (mine.length + 1) + (h.unreported - 1) := by
      rw [Nat.mul_succ]
      omega
    have hsmall := hkeeps.2
    rw [hrest, Nat.mul_add_div hbatch, Nat.div_eq_of_lt (by omega), Nat.add_zero]

variable [Message M] {job : Job W V M T} {t : Nat} {w : Worker} {h h' : Hand V M}
  {s s' : Shared V M T}

/-- An action without a report keeps the balance. Before a worker fails there is a node that it has
    not executed. -/
theorem Balanced.act (hb : h.Balanced job.batchSize share mine) (hbatch : 0 < job.batchSize)
    (hdue : h.due? job.batchSize = none)
    (hroom : ∀ i outcome lost nodes, h.stage = .sending i outcome lost [] nodes →
      h.tally.processed < share)
    (hact : w.act job t h s = some (h', s')) : h'.Balanced job.batchSize share mine := by
  have htotal := hb.total
  have hkeeps := hb.keeps
  unfold Keeps at hkeeps
  cases Worker.acts_of_act hact with
  | look hstage =>
    rw [hstage] at hkeeps
    exact ⟨htotal, hkeeps⟩
  | stop hstage _ =>
    rw [hstage] at hkeeps
    exact ⟨htotal, hkeeps⟩
  | pick hstage _ hpick =>
    rw [hstage] at hkeeps
    unfold Worker.pick at hpick
    split at hpick <;>
    · cases hpick
      exact ⟨htotal, hkeeps⟩
  | attempt hstage ho =>
    rw [hstage] at hkeeps
    refine ⟨?_, hkeeps⟩
    rw [← ho, Outbox.processed_attempt]
    exact htotal
  | fail hstage hfail => exact ⟨htotal, hroom _ _ _ _ hstage⟩
  | @count i outcome lost nodes _ _ hstage hfail hcount =>
    rw [hstage] at hkeeps
    have hprocessed : h'.tally.processed = h.tally.processed + 1 := by
      cases hcount
      exact s.processed_settle t h _ _
    have hunreported : h'.unreported = h.unreported + 1 := by
      cases hcount
      rfl
    have hstage' : h'.stage = .counted i nodes := by
      cases hcount
      rfl
    refine ⟨by rw [hprocessed, hunreported, ← htotal]; rfl, ?_⟩
    unfold Keeps
    rw [hstage', hunreported]
    exact hkeeps
  | batch hstage hbatch' =>
    have hfew := lt_of_not_due hstage hdue
    rw [hstage] at hkeeps
    rw [Worker.reportBatch_of_not_due hstage hdue] at hbatch'
    cases hbatch'
    exact ⟨htotal, hkeeps.1, hfew⟩
  | rest hstage hrest =>
    have hnone := eq_zero_of_not_due hstage hdue
    rw [hstage] at hkeeps
    rw [Worker.reportRest_of_not_due hstage hdue] at hrest
    cases hrest
    refine ⟨htotal, hnone, ?_⟩
    show mine.length = h.tally.processed ⌈/⌉ job.batchSize
    have hexact : h.tally.processed = job.batchSize * mine.length := by
      rw [← htotal, hkeeps.1, hnone, Nat.add_zero]
    rw [hexact, Nat.ceilDiv_eq_add_pred_div, Nat.add_sub_assoc hbatch, Nat.mul_add_div hbatch,
      Nat.div_eq_of_lt (by omega), Nat.add_zero]
  | clear hstage _ =>
    rw [hstage] at hkeeps
    exact ⟨htotal, hkeeps⟩
  | abort hstage =>
    rw [hstage] at hkeeps
    exact ⟨htotal, hkeeps⟩
  | record hstage =>
    rw [hstage] at hkeeps
    exact ⟨htotal, hkeeps⟩

end Hand

/-! ## All workers -/

/-- The shares of the workers are together as large as the frame has active nodes. -/
theorem Team.sum_length_share {W V M : Type} {p : Program W V M} {workers : List Worker}
    {f : Frame V M} (h : Team p workers) (hf : f.Proper p) :
    ∑ k ∈ Finset.range workers.length, (workers[k]?.elim [] (p.share f)).length =
      f.active.card := by
  have hshare : ∀ (k : Nat) (w : Worker), workers[k]? = some w →
      workers[k]?.elim [] (p.share f) = p.share f w := by
    intro k w hw
    rw [hw]
    rfl
  rw [sum_length_eq, flatMap_range_length workers hshare, h.flatMap_share, hf.card_active]

namespace Crew

variable {W V M T : Type} [Message M]

/-- An execution of the workers of a superstep, and the calls that they have made, in order. -/
inductive Traces (job : Job W V M T) (t : Nat) (workers : List Worker) (store : NodeStore V M)
    (tracker : T) : Crew V M T → List Call → Prop
  | start : Traces job t workers store tracker (.start store tracker) []
  | act {c : Crew V M T} {calls : List Call} {k : Nat} {w : Worker} {h : Hand V M}
      {s : Shared V M T} :
    Traces job t workers store tracker c calls → workers[k]? = some w →
      w.act job t (c.hands k) c.shared = some (h, s) →
      Traces job t workers store tracker ⟨Function.update c.hands k h, s⟩
        (calls ++ Call.due k ((c.hands k).due? job.batchSize))

variable {job : Job W V M T} {t : Nat} {workers : List Worker} {store : NodeStore V M} {tracker : T}
  {c : Crew V M T} {calls : List Call} {f : Frame V M}

theorem Traces.steps (h : Traces job t workers store tracker c calls) :
    Relation.ReflTransGen (Step job t workers) (.start store tracker) c := by
  induction h with
  | start => exact .refl
  | act _ hw hact ih => exact ih.tail (.act hw hact)

/-- Every execution can be followed. -/
theorem exists_traces (h : Relation.ReflTransGen (Step job t workers) (.start store tracker) c) :
    ∃ calls, Traces job t workers store tracker c calls := by
  induction h with
  | refl => exact ⟨[], .start⟩
  | tail _ hstep ih =>
    obtain ⟨calls, hcalls⟩ := ih
    obtain ⟨hw, hact⟩ := hstep
    exact ⟨_, hcalls.act hw hact⟩

theorem Traces.tracker_eq (h : Traces job t workers store tracker c calls) :
    c.shared.tracker = job.tracker.replay (calls.map Call.report) tracker := by
  induction h with
  | start => rfl
  | @act c calls k w h s _ _ hact ih =>
    rw [List.map_append, Tracker.replay_append, ← ih]
    cases hdue : (c.hands k).due? job.batchSize with
    | none => exact Worker.tracker_of_not_due hdue hact
    | some n =>
      rw [Worker.act_of_due hdue] at hact
      cases hact
      rfl

/-- The calls of a superstep agree with what its workers have executed. -/
structure Accounts (job : Job W V M T) (f : Frame V M) (workers : List Worker) (c : Crew V M T)
    (calls : List Call) : Prop where
  worker_lt : ∀ call ∈ calls, call.worker < workers.length
  amount : ∀ call ∈ calls, 0 < call.amount ∧ call.amount ≤ job.batchSize
  balanced : ∀ k w, workers[k]? = some w → (c.hands k).Balanced job.batchSize
    (job.program.share f w).length (Call.ofWorker calls k)

/-- An action of a worker keeps the accounts of all. -/
theorem Accounts.act {g : History M} (ha : Accounts job f workers c calls)
    (hm : Midway job t f workers g c) (hbatch : 0 < job.batchSize) {k : Nat} {w : Worker}
    (hw : workers[k]? = some w)
    (hquiet : ∀ n, (c.hands k).due? job.batchSize = some n →
      (job.tracker.take (.logProgress n) c.shared.tracker).2 = none)
    {h : Hand V M} {s : Shared V M T}
    (hact : w.act job t (c.hands k) c.shared = some (h, s)) :
    Accounts job f workers ⟨Function.update c.hands k h, s⟩
      (calls ++ Call.due k ((c.hands k).due? job.batchSize)) := by
  have hk : k < workers.length := (List.getElem?_eq_some_iff.1 hw).1
  have hbalanced := ha.balanced k w hw
  have hnew : ∀ call ∈ Call.due k ((c.hands k).due? job.batchSize),
      call.worker < workers.length ∧ 0 < call.amount ∧ call.amount ≤ job.batchSize := by
    intro call hcall
    obtain ⟨n, hn, rfl⟩ := List.mem_map.1 hcall
    exact ⟨hk, hbalanced.due_le hbatch (Option.mem_toList.1 hn)⟩
  have hself : h.Balanced job.batchSize (job.program.share f w).length
      (Call.ofWorker (calls ++ Call.due k ((c.hands k).due? job.batchSize)) k) := by
    rw [Call.ofWorker_append_due_self]
    cases hdue : (c.hands k).due? job.batchSize with
    | some n =>
      rw [Worker.act_of_due hdue, hquiet n hdue] at hact
      cases hact
      exact hbalanced.relieved hbatch hdue k
    | none =>
      refine (List.append_nil _).symm ▸ hbalanced.act hbatch hdue ?_ hact
      intro i outcome lost nodes hstage
      have hatStage := hm.atStage k w hw
      rw [hstage] at hatStage
      obtain ⟨-, made, hsending⟩ := hatStage
      rw [hm.processed k hk, ← hsending.split, List.length_append, List.length_cons]
      omega
  refine ⟨?_, ?_, ?_⟩
  · intro call hcall
    exact (List.mem_append.1 hcall).elim (ha.worker_lt call) fun hcall => (hnew call hcall).1
  · intro call hcall
    exact (List.mem_append.1 hcall).elim (ha.amount call) fun hcall => (hnew call hcall).2
  · intro j v hv
    by_cases hjk : j = k
    · subst hjk
      rw [hw] at hv
      cases hv
      simpa using hself
    · rw [Call.ofWorker_append_due_of_ne _ hjk]
      simpa [Function.update_of_ne hjk] using ha.balanced j v hv

/-- No call of those that have been made panics, and neither does one that is due. -/
theorem Traces.quiet_of_panics (h : Traces job t workers store tracker c calls) {k : Nat}
    (hquiet : job.tracker.panics
      ((calls ++ Call.due k ((c.hands k).due? job.batchSize)).map Call.report) tracker = []) :
    job.tracker.panics (calls.map Call.report) tracker = [] ∧
      ∀ n, (c.hands k).due? job.batchSize = some n →
        (job.tracker.take (.logProgress n) c.shared.tracker).2 = none := by
  rw [List.map_append, Tracker.panics_append, List.append_eq_nil_iff, ← h.tracker_eq] at hquiet
  refine ⟨hquiet.1, fun n hn => ?_⟩
  have hdue := hquiet.2
  rw [hn] at hdue
  exact Option.toList_eq_nil_iff.1 ((Tracker.panics_singleton ..).symm.trans hdue)

/-- The accounts are kept as long as the tracker does not panic. -/
theorem Traces.accounts (h : Traces job t workers store tracker c calls)
    (ht : Team job.program workers) (hstore : store.Holds job.program t f)
    (hbatch : 0 < job.batchSize)
    (hquiet : job.tracker.panics (calls.map Call.report) tracker = []) :
    Accounts job f workers c calls := by
  induction h with
  | start => exact ⟨nofun, nofun, fun _ _ _ => Hand.balanced_start hbatch⟩
  | act htraces hw hact ih =>
    obtain ⟨⟨g, hm⟩, -⟩ := midway_of_steps ht hstore htraces.steps
    obtain ⟨hbefore, hdue⟩ := htraces.quiet_of_panics hquiet
    exact (ih hbefore).act hm hbatch hw hdue hact

/-- A worker that has gone through all its nodes has reported them all. -/
theorem Accounts.of_ended {g : History M} (ha : Accounts job f workers c calls)
    (he : Ended job t f workers g c) {k : Nat} {w : Worker} (hw : workers[k]? = some w) :
    Call.total (Call.ofWorker calls k) = (job.program.share f w).length ∧
      (Call.ofWorker calls k).length = (job.program.share f w).length ⌈/⌉ job.batchSize := by
  have hk : k < workers.length := (List.getElem?_eq_some_iff.1 hw).1
  have hprocessed : (c.hands k).tally.processed = (job.program.share f w).length := by
    rw [he.midway.processed k hk, he.finished_eq hw]
  obtain ⟨htotal, hkeeps⟩ := ha.balanced k w hw
  unfold Hand.Keeps at hkeeps
  rw [he.stage k hk, hprocessed] at hkeeps
  rw [hprocessed, hkeeps.1] at htotal
  exact ⟨htotal, hkeeps.2⟩

theorem Accounts.total_add_le {g : History M} (ha : Accounts job f workers c calls)
    (hm : Midway job t f workers g c) {k : Nat} {w : Worker} (hw : workers[k]? = some w) :
    Call.total (Call.ofWorker calls k) + (c.hands k).unreported ≤
      (job.program.share f w).length := by
  have htotal := (ha.balanced k w hw).total
  rw [hm.processed k (List.getElem?_eq_some_iff.1 hw).1] at htotal
  have hfinished := (hm.finished_le k).length_le
  have hbegun := (hm.begun_le k w hw).length_le
  omega

/-- What the workers have reported, and what one of them has not yet reported, is no more than the
    active nodes. -/
theorem Accounts.total_add_le_card {g : History M} (ha : Accounts job f workers c calls)
    (hm : Midway job t f workers g c) (ht : Team job.program workers) (hf : f.Proper job.program)
    {k : Nat} (hk : k < workers.length) :
    Call.total calls + (c.hands k).unreported ≤ f.active.card := by
  rw [Call.total_eq_sum ha.worker_lt, ← ht.sum_length_share hf]
  have hsum : ∑ j ∈ Finset.range workers.length,
      (Call.total (Call.ofWorker calls j) + (c.hands j).unreported) ≤
        ∑ j ∈ Finset.range workers.length, (workers[j]?.elim [] (job.program.share f)).length := by
    refine Finset.sum_le_sum fun j hj => ?_
    have hw := List.getElem?_eq_getElem (Finset.mem_range.1 hj)
    rw [hw]
    exact ha.total_add_le hm hw
  rw [Finset.sum_add_distrib] at hsum
  have hone := Finset.single_le_sum (f := fun j => (c.hands j).unreported)
    (fun j _ => Nat.zero_le _) (Finset.mem_range.2 hk)
  omega

/-- At no time the workers have reported more than the active nodes. -/
theorem Traces.total_le_card (h : Traces job t workers store tracker c calls)
    (ht : Team job.program workers) (hf : f.Proper job.program)
    (hstore : store.Holds job.program t f) (hbatch : 0 < job.batchSize)
    (hquiet : job.tracker.panics (calls.map Call.report) tracker = []) :
    Call.total calls ≤ f.active.card := by
  have ha := h.accounts ht hstore hbatch hquiet
  obtain ⟨⟨g, hm⟩, -⟩ := midway_of_steps ht hstore h.steps
  rw [Call.total_eq_sum ha.worker_lt, ← ht.sum_length_share hf]
  refine Finset.sum_le_sum fun k hk => ?_
  have hw := List.getElem?_eq_getElem (Finset.mem_range.1 hk)
  rw [hw]
  exact (Nat.le_add_right _ _).trans (ha.total_add_le hm hw)

/-- A tracker that does not panic at calls about no more nodes than the active ones does not panic
    at the calls of the workers. -/
theorem Traces.panics_eq_nil (h : Traces job t workers store tracker c calls)
    (ht : Team job.program workers) (hf : f.Proper job.program)
    (hstore : store.Holds job.program t f) (hbatch : 0 < job.batchSize)
    (hquiet : ∀ calls, Call.total calls ≤ f.active.card →
      job.tracker.panics (calls.map Call.report) tracker = []) :
    job.tracker.panics (calls.map Call.report) tracker = [] := by
  induction h with
  | start => rfl
  | @act c calls k w h s htraces hw hact ih =>
    refine hquiet _ ?_
    have ha := htraces.accounts ht hstore hbatch ih
    obtain ⟨⟨g, hm⟩, -⟩ := midway_of_steps ht hstore htraces.steps
    have hle := ha.total_add_le_card hm ht hf (List.getElem?_eq_some_iff.1 hw).1
    rw [Call.total_append]
    refine le_trans (Nat.add_le_add_left ?_ _) hle
    cases hdue : (c.hands k).due? job.batchSize with
    | none => exact Nat.zero_le _
    | some n =>
      rw [(Hand.due?_cases hdue).1]
      simp [Call.due, Call.total]

omit [Message M] in
theorem Accounts.total_lt_of_failed (ha : Accounts job f workers c calls) {k : Nat} {w : Worker}
    (hw : workers[k]? = some w) (hfailed : (c.hands k).stage = .done true) :
    Call.total (Call.ofWorker calls k) < (job.program.share f w).length := by
  obtain ⟨htotal, hkeeps⟩ := ha.balanced k w hw
  unfold Hand.Keeps at hkeeps
  rw [hfailed] at hkeeps
  exact lt_of_le_of_lt (by omega) hkeeps

/-- What the calls of a superstep come to: every call is about at least one node and at most a
    batch. Without a failure they are about all active nodes, and a worker makes as few of them as
    its active nodes allow; with a failure they are about fewer nodes. -/
structure Accounted (batchSize : Nat) (p : Program W V M) (f : Frame V M) (workers : List Worker)
    (failed : Prop) (calls : List Call) : Prop where
  amount : ∀ call ∈ calls, 0 < call.amount ∧ call.amount ≤ batchSize
  total_eq : ¬ failed → Call.total calls = f.active.card
  length_eq : ¬ failed → ∀ k w, workers[k]? = some w →
    (Call.ofWorker calls k).length = (p.share f w).length ⌈/⌉ batchSize
  total_lt : failed → Call.total calls < f.active.card

/-- The calls of a superstep that has ended. -/
theorem Traces.accounted (h : Traces job t workers store tracker c calls)
    (hfinished : c.Finished workers) (ht : Team job.program workers) (hf : f.Proper job.program)
    (hstore : store.Holds job.program t f) (hbatch : 0 < job.batchSize)
    (hquiet : job.tracker.panics (calls.map Call.report) tracker = []) :
    Accounted job.batchSize job.program f workers c.shared.failure.isSome calls := by
  have ha := h.accounts ht hstore hbatch hquiet
  obtain ⟨⟨g, hm⟩, hc⟩ := midway_of_steps ht hstore h.steps
  have hended : ¬ c.shared.failure.isSome → Ended job t f workers g c :=
    fun hfailure => hm.ended hc ht hf hfinished (by simpa using hfailure)
  have hshare : ∀ k ∈ Finset.range workers.length, ∃ w, workers[k]? = some w ∧
      workers[k]?.elim [] (job.program.share f) = job.program.share f w := by
    intro k hk
    have hw := List.getElem?_eq_getElem (Finset.mem_range.1 hk)
    exact ⟨_, hw, by rw [hw]; rfl⟩
  refine ⟨ha.amount, fun hfailure => ?_,
    fun hfailure k w hw => (ha.of_ended (hended hfailure) hw).2, fun hfailure => ?_⟩
  · rw [Call.total_eq_sum ha.worker_lt, ← ht.sum_length_share hf]
    refine Finset.sum_congr rfl fun k hk => ?_
    obtain ⟨w, hw, heq⟩ := hshare k hk
    rw [heq]
    exact (ha.of_ended (hended hfailure) hw).1
  · rw [Call.total_eq_sum ha.worker_lt, ← ht.sum_length_share hf]
    obtain ⟨k, hk, hfailed⟩ := hc.failed_iff.1 hfailure
    refine Finset.sum_lt_sum (fun j hj => ?_) ⟨k, Finset.mem_range.2 hk, ?_⟩
    · obtain ⟨v, hv, heq⟩ := hshare j hj
      rw [heq]
      exact (Nat.le_add_right _ _).trans (ha.total_add_le hm hv)
    · obtain ⟨w, hw, heq⟩ := hshare k (Finset.mem_range.2 hk)
      rw [heq]
      exact ha.total_lt_of_failed hw hfailed

end Crew

end Superstep
