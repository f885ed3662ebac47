import Mathlib.Tactic
import Superstep.Proofs.Crew.Store

/-!
# Running the workers in order is one of the interleavings

`Round.play` lets one worker after the other take all of its actions.

Results:
* `sendAll_eq_foldl`: what a step sends is sent attempt by attempt.
* `path_process`: a worker by itself goes through `Worker.process` action by action.
* `interleaving_play`: `Round.play` is an interleaving, so that `Schedule.inOrder` is a schedule and
  `Run.perform` a run under it (`under_inOrder`).
-/

namespace Superstep

/-! ## Attempts -/

namespace Outbox

variable {W M : Type} [Message M]

theorem foldl_sendTo_of_failed {α : Type} {c : Channel M} {o : Outbox M} (h : o.failure.isSome)
    (target : α → NodeId) (message : α → M) (xs : List α) :
    xs.foldl (fun o x => o.sendTo c (target x) (message x)) o = o := by
  induction xs with
  | nil => rfl
  | cons x xs ih => rwa [List.foldl_cons, sendTo_of_failed h]

/-- A walk that sends along relationships stops at the first failure. -/
theorem visitAll_sendTo (c : Channel M) (message : M) (o : Outbox M) (rs : List (NodeId × W)) :
    Graph.visitAll (fun o target _ => (o.sendTo c target message,
        (o.sendTo c target message).failure.isNone)) o rs =
      (rs.foldl (fun o r => o.sendTo c r.1 message) o,
        rs.isEmpty || (rs.foldl (fun o r => o.sendTo c r.1 message) o).failure.isNone) := by
  induction rs generalizing o with
  | nil => rfl
  | cons r rs ih =>
    unfold Graph.visitAll
    cases hf : (o.sendTo c r.1 message).failure with
    | none =>
      simp only [Option.isNone_none]
      rw [ih, List.foldl_cons]
      cases rs with
      | nil => simp [hf]
      | cons r' rs => rfl
    | some f =>
      have hkeep : rs.foldl (fun o r => o.sendTo c r.1 message) (o.sendTo c r.1 message) =
          o.sendTo c r.1 message :=
        foldl_sendTo_of_failed (Option.isSome_of_eq_some hf) Prod.fst (fun _ => message) rs
      simp only [hf, Option.isNone_some, List.foldl_cons, hkeep]
      rfl

theorem sendToNeighbors_eq_foldl (c : Channel M) (g : Graph W) (node : NodeId) (o : Outbox M)
    (message : M) :
    o.sendToNeighbors c g node message =
      (Send.attempts g node (.toNeighbors message)).foldl (attempt c) o := by
  have hmessages : ∀ o : Outbox M,
      ((g.neighbors node).map fun target => Attempt.message target message).foldl (attempt c) o =
        (g.relationships node).foldl (fun o r => o.sendTo c r.1 message) o := by
    intro o
    rw [Graph.neighbors, List.map_map, List.foldl_map]
    rfl
  unfold sendToNeighbors Send.attempts Graph.visit
  rw [visitAll_sendTo, List.foldl_append, hmessages]
  have hempty : (g.neighbors node).isEmpty = (g.relationships node).isEmpty := by
    simp [Graph.neighbors]
  rw [hempty]
  generalize (g.relationships node).foldl (fun o r => o.sendTo c r.1 message) o = sent
  cases hstop : (g.relationships node).isEmpty || sent.failure.isNone with
  | true =>
    cases g.fault? node with
    | none => rfl
    | some fault => simp [attempt, hstop]
  | false =>
    cases g.fault? node with
    | none => rfl
    | some fault => simp [attempt, hstop]

theorem sendAll_eq_foldl (c : Channel M) (g : Graph W) (node : NodeId) (o : Outbox M)
    (sends : List (Send M)) :
    o.sendAll c g node sends = (sends.flatMap (Send.attempts g node)).foldl (attempt c) o := by
  unfold sendAll
  induction sends generalizing o with
  | nil => rfl
  | cons send sends ih =>
    rw [List.foldl_cons, ih, List.flatMap_cons, List.foldl_append]
    congr 1
    match send with
    | .to target message => rfl
    | .toNeighbors message => exact sendToNeighbors_eq_foldl c g node o message

end Outbox

/-! ## One worker by itself -/

namespace ActiveSet

theorem join_current_next (a : ActiveSet) (t : Nat) : join t (a.current t) (a.next t) = a := by
  unfold join current next
  split <;> rfl

theorem setNext_eq_join (a : ActiveSet) (t : Nat) (s : Bitset) :
    a.setNext t s = join t (a.current t) s := by
  unfold setNext join current
  split <;> rfl

theorem setCurrent_eq_join (a : ActiveSet) (t : Nat) (s : Bitset) :
    a.setCurrent t s = join t s (a.next t) := by
  unfold setCurrent join next
  split <;> rfl

end ActiveSet

namespace Worker

section

variable {W V M T : Type} {t : Nat} {current : Bitset} {failure : Option RunError}

/-- A worker that stands where the sweep `x` has come to. The nodes of the superstep are `current`,
    and `failure` has been recorded before. -/
def atSweep (t : Nat) (current : Bitset) (failure : Option RunError) (x : Sweep V M T)
    (stage : Stage V M) : Hand V M × Shared V M T :=
  (⟨stage, x.out.tally, x.unreported⟩,
    ⟨⟨x.values, x.out.mail, .join t current x.out.next⟩, x.tracker, failure.isSome, failure⟩)

/-- A sweep that has not failed. -/
def Sound (x : Sweep V M T) : Prop := x.failure = none ∧ x.out.failure = none

/-- Where a worker goes on, unless it has failed. -/
def orFailing (x : Sweep V M T) (stage : Stage V M) : Stage V M :=
  match x.failure with
  | none => stage
  | some e => .failing e

theorem orFailing_of_none {x : Sweep V M T} (h : x.failure = none) (stage : Stage V M) :
    orFailing x stage = stage := by
  simp [orFailing, h]

theorem sweep_atSweep {x : Sweep V M T} (hx : Sound x) (stage : Stage V M) :
    (atSweep t current failure x stage).2.sweep t (atSweep t current failure x stage).1 = x := by
  obtain ⟨values, ⟨mail, next, tally, lost⟩, tracker, unreported, fault⟩ := x
  obtain ⟨rfl, rfl⟩ : fault = none ∧ lost = none := hx
  unfold atSweep Shared.sweep Shared.outbox
  simp only [ActiveSet.next_join]

theorem resume_atSweep {x y : Sweep V M T} (hvalues : y.values = x.values)
    (stage next : Stage V M) :
    (atSweep t current failure x stage).2.resume t y next =
      atSweep t current failure y (orFailing y next) := by
  unfold atSweep Shared.resume Shared.putOutbox
  simp only [ActiveSet.setNext_eq_join, ActiveSet.current_join, hvalues]
  rfl

theorem settle_spec (x : Sweep V M T) (i : Nat) (halt : Bool) :
    (settle x i halt).values = x.values ∧ (settle x i halt).failure = x.failure ∧
      (settle x i halt).out.failure = x.out.failure := by
  obtain ⟨values, out, tracker, unreported, fault⟩ := x
  cases halt with
  | true => exact ⟨rfl, rfl, rfl⟩
  | false => exact ⟨rfl, rfl, Outbox.failure_activate out i⟩

end

variable {W V M T : Type} [Message M]

/-- A sequence of actions of one worker. -/
def Path (job : Job W V M T) (t : Nat) (w : Worker) :
    Hand V M × Shared V M T → Hand V M × Shared V M T → Prop :=
  Relation.ReflTransGen fun x y => w.act job t x.1 x.2 = some y

variable (job : Job W V M T) (t : Nat) (w : Worker) (current : Bitset) (failure : Option RunError)

/-! ### The actions for one node -/

/-- All attempts of a step, one after the other. -/
theorem path_attempts (i : Nat) (outcome : Outcome V M) (nodes : List Nat)
    (attempts : List (Attempt M)) (x : Sweep V M T) :
    Path job t w
      (atSweep t current failure x (.sending i outcome x.out.failure attempts nodes))
      (atSweep t current failure
        { x with out := attempts.foldl (Outbox.attempt (job.channel t)) x.out }
        (.sending i outcome
          (attempts.foldl (Outbox.attempt (job.channel t)) x.out).failure [] nodes)) := by
  induction attempts generalizing x with
  | nil => exact .refl
  | cons a attempts ih =>
    refine .head ?_ (ih { x with out := x.out.attempt (job.channel t) a })
    obtain ⟨values, ⟨mail, next, tally, lost⟩, tracker, unreported, fault⟩ := x
    simp only [act, atSweep, Shared.outbox, Shared.putOutbox, ActiveSet.next_join,
      ActiveSet.setNext_eq_join, ActiveSet.current_join]

theorem act_sent {x : Sweep V M T} (hx : Sound x) {i : Nat} {outcome : Outcome V M}
    {nodes : List Nat}
    (h : failureOf? (.ofIndex i) t job.graph.nodeCount outcome.failure none = none) :
    w.act job t (atSweep t current failure x (.sending i outcome none [] nodes)).1
        (atSweep t current failure x (.sending i outcome none [] nodes)).2 =
      some (atSweep t current failure (settle x i outcome.halt) (.counted i nodes)) := by
  obtain ⟨hvalues, hfault, -⟩ := settle_spec x i outcome.halt
  have hstage : orFailing (settle x i outcome.halt) (.counted i nodes) = .counted i nodes :=
    orFailing_of_none (by rw [hfault, hx.1]) _
  have hact : w.act job t (atSweep t current failure x (.sending i outcome none [] nodes)).1
      (atSweep t current failure x (.sending i outcome none [] nodes)).2 =
        some ((atSweep t current failure x (.sending i outcome none [] nodes)).2.resume t
          (settle ((atSweep t current failure x (.sending i outcome none [] nodes)).2.sweep t
            (atSweep t current failure x (.sending i outcome none [] nodes)).1) i outcome.halt)
          (.counted i nodes)) := by
    unfold act
    simp only [atSweep, h]
  rw [hact, sweep_atSweep hx, resume_atSweep hvalues, hstage]

theorem act_counted {x : Sweep V M T} (hx : Sound x) (i : Nat) (nodes : List Nat) :
    w.act job t (atSweep t current failure x (.counted i nodes)).1
        (atSweep t current failure x (.counted i nodes)).2 =
      some (atSweep t current failure (reportBatch job t (.ofIndex i) x)
        (orFailing (reportBatch job t (.ofIndex i) x) (.between nodes))) := by
  have hact : w.act job t (atSweep t current failure x (.counted i nodes)).1
      (atSweep t current failure x (.counted i nodes)).2 =
        some ((atSweep t current failure x (.counted i nodes)).2.resume t
          (reportBatch job t (.ofIndex i)
            ((atSweep t current failure x (.counted i nodes)).2.sweep t
              (atSweep t current failure x (.counted i nodes)).1)) (.between nodes)) := rfl
  rw [hact, sweep_atSweep hx, resume_atSweep (reportBatch_spec job t _ x).1]

theorem act_reporting {x : Sweep V M T} (hx : Sound x) :
    w.act job t (atSweep t current failure x .reporting).1
        (atSweep t current failure x .reporting).2 =
      some (atSweep t current failure (reportRest job x)
        (orFailing (reportRest job x) .clearing)) := by
  have hact : w.act job t (atSweep t current failure x .reporting).1
      (atSweep t current failure x .reporting).2 =
        some ((atSweep t current failure x .reporting).2.resume t
          (reportRest job ((atSweep t current failure x .reporting).2.sweep t
            (atSweep t current failure x .reporting).1)) .clearing) := rfl
  rw [hact, sweep_atSweep hx, resume_atSweep (reportRest_spec job x).1]

/-- From the last attempt of a step to the next node. -/
theorem path_sent {x : Sweep V M T} (hx : x.failure = none) (i : Nat) (outcome : Outcome V M)
    (nodes : List Nat) {y : Sweep V M T}
    (hy : y = match failureOf? (.ofIndex i) t job.graph.nodeCount outcome.failure x.out.failure with
      | some e => { x with failure := some e }
      | none => reportBatch job t (.ofIndex i) (settle x i outcome.halt)) :
    Path job t w (atSweep t current failure x (.sending i outcome x.out.failure [] nodes))
        (atSweep t current failure y (orFailing y (.between nodes))) ∧
      (y.failure = none → Sound y) := by
  subst hy
  cases hfail : failureOf? (.ofIndex i) t job.graph.nodeCount outcome.failure x.out.failure with
  | some e =>
    refine ⟨.single ?_, fun h => by cases h⟩
    simp only [act, atSweep, hfail]
    rfl
  | none =>
    have hlost := (lost_of_failureOf? hfail).2
    rw [hlost] at hfail ⊢
    obtain ⟨-, hfault, hout⟩ := settle_spec x i outcome.halt
    have hsettled : Sound (settle x i outcome.halt) := ⟨by rw [hfault, hx], by rw [hout, hlost]⟩
    refine ⟨.head (act_sent job t w current failure ⟨hx, hlost⟩ hfail)
        (.single (act_counted job t w current failure hsettled i nodes)),
      fun h => ⟨h, ?_⟩⟩
    rw [(reportBatch_spec job t _ _).2.1]
    exact hsettled.2

/-- The actions for one node are what `Worker.visit` does. -/
theorem path_visit {x : Sweep V M T} (hx : Sound x) (i : Nat) (nodes : List Nat) :
    Path job t w (atSweep t current none x (.between (i :: nodes)))
        (atSweep t current none (visit job t w.view x i)
          (orFailing (visit job t w.view x i) (.between nodes))) ∧
      ((visit job t w.view x i).failure = none → Sound (visit job t w.view x i)) := by
  have hpick : w.act job t (atSweep t current none x (.between (i :: nodes))).1
      (atSweep t current none x (.between (i :: nodes))).2 =
        some (w.pick job t (atSweep t current none x (.between (i :: nodes))).1
          (atSweep t current none x (.between (i :: nodes))).2 i nodes) := rfl
  unfold pick at hpick
  have hvalues : (atSweep t current none x (.between (i :: nodes))).2.store.values = x.values := rfl
  have hmail : (atSweep t current none x (.between (i :: nodes))).2.store.mail = x.out.mail := rfl
  rw [hvalues, hmail] at hpick
  unfold visit
  split
  · next value messages hvalue hmessages =>
    rw [hvalue, hmessages] at hpick
    simp only at hpick
    obtain ⟨values, ⟨mail, next, tally, lost⟩, tracker, unreported, fault⟩ := x
    obtain ⟨rfl, rfl⟩ : fault = none ∧ lost = none := hx
    simp only [execute, absorb, Outbox.sendAll_eq_foldl]
    generalize job.computation.step ⟨job.graph, .ofIndex i, t, value, messages.toList⟩ =
      outcome at hpick ⊢
    have hsent := path_attempts job t w current none i outcome nodes
      (outcome.sends.flatMap (Send.attempts job.graph (.ofIndex i)))
      ⟨values.viewSet w.view i outcome.value, ⟨mail.discard t i, next, tally, none⟩, tracker,
        unreported, none⟩
    obtain ⟨hrest, hsound⟩ := path_sent job t w current none
      (x := ⟨values.viewSet w.view i outcome.value,
        (outcome.sends.flatMap (Send.attempts job.graph (.ofIndex i))).foldl
          (Outbox.attempt (job.channel t)) ⟨mail.discard t i, next, tally, none⟩, tracker,
        unreported, none⟩) rfl i outcome nodes rfl
    exact ⟨.head hpick (hsent.trans hrest), hsound⟩
  · next hnone =>
    have hskip : w.act job t (atSweep t current none x (.between (i :: nodes))).1
        (atSweep t current none x (.between (i :: nodes))).2 =
          some (atSweep t current none x (.between nodes)) := by
      rw [hpick]
      congr 1
      split
      · next value messages hvalue hmessages => exact absurd hmessages (hnone value messages hvalue)
      · rfl
    rw [orFailing_of_none hx.1]
    exact ⟨.single hskip, fun _ => hx⟩

/-! ### The whole superstep of a worker -/

/-- The actions for all nodes are what `Worker.visitAll` does. -/
theorem path_visitAll {x : Sweep V M T} (hx : Sound x) (nodes : List Nat) :
    Path job t w (atSweep t current none x (.between nodes))
        (atSweep t current none (visitAll job t w.view x nodes)
          (orFailing (visitAll job t w.view x nodes) (.between []))) ∧
      ((visitAll job t w.view x nodes).failure = none →
        Sound (visitAll job t w.view x nodes)) := by
  induction nodes generalizing x with
  | nil =>
    unfold visitAll
    rw [orFailing_of_none hx.1]
    exact ⟨.refl, fun _ => hx⟩
  | cons i nodes ih =>
    obtain ⟨hpath, hsound⟩ := path_visit job t w current hx i nodes
    unfold visitAll
    cases hfault : (visit job t w.view x i).failure with
    | some e =>
      simp only [orFailing, hfault, Option.isSome_some, if_true] at hpath ⊢
      exact ⟨hpath, fun h => by cases h⟩
    | none =>
      simp only [hfault, Option.isSome_none, Bool.false_eq_true, if_false]
      rw [orFailing_of_none hfault] at hpath
      obtain ⟨hrest, hsound'⟩ := ih (hsound hfault)
      exact ⟨hpath.trans hrest, hsound'⟩

/-- How the sweep of a worker ends. -/
def close (t : Nat) (w : Worker) (current : Bitset) (failure : Option RunError) (x : Sweep V M T) :
    Hand V M × Shared V M T :=
  match x.failure with
  | none => atSweep t (current.clear w.partition.start w.partition.stop).1 failure x (.done false)
  | some e => atSweep t current (failure.or (some e)) x (.done true)

theorem path_failing (x : Sweep V M T) (e : RunError) :
    Path job t w (atSweep t current failure x (.failing e))
      (atSweep t current (failure.or (some e)) x (.done true)) := by
  refine .head (b := (⟨.recording e, x.out.tally, x.unreported⟩,
    { (atSweep t current failure x (.failing e)).2 with aborted := true })) rfl (.single ?_)
  simp only [act, atSweep]
  cases failure <;> rfl

/-- The last actions of a worker: it reports what is left, and clears its nodes. -/
theorem path_reporting {x : Sweep V M T} (hx : Sound x) :
    Path job t w (atSweep t current failure x .reporting)
      (close t w current failure (reportRest job x)) := by
  refine .head (act_reporting job t w current failure hx) ?_
  unfold close
  cases hfault : (reportRest job x).failure with
  | some e =>
    simp only [orFailing, hfault]
    exact path_failing job t w current failure _ e
  | none =>
    rw [orFailing_of_none hfault]
    refine .single ?_
    simp only [act, atSweep, ActiveSet.current_join, ActiveSet.setCurrent_eq_join,
      ActiveSet.next_join]

theorem path_between_nil (x : Sweep V M T) :
    Path job t w (atSweep t current failure x (.between []))
      (atSweep t current failure x .reporting) :=
  .single rfl

/-- The actions of a worker that is by itself are what `Worker.process` does. -/
theorem path_process (store : NodeStore V M) (tracker : T) :
    Path job t w (.start, ⟨store, tracker, failure.isSome, failure⟩)
      (close t w (store.active.current t) failure
        (w.process job t failure.isSome store tracker).2) := by
  have hsound : Sound (start t store tracker) := ⟨rfl, rfl⟩
  have hfirst : w.act job t Hand.start ⟨store, tracker, failure.isSome, failure⟩ =
      some (atSweep t (store.active.current t) failure (start t store tracker)
        (.between (w.activeNodes (store.active.current t)))) := by
    simp only [act, Hand.start, atSweep, start, ActiveSet.join_current_next]
  refine .head hfirst ?_
  unfold process sweep
  simp only
  cases failure with
  | some e =>
    -- Another worker has failed: no node is taken up.
    simp only [Option.isSome_some, if_true, visitAll]
    have hstop : Path job t w
        (atSweep t (store.active.current t) (some e) (start t store tracker)
          (.between (w.activeNodes (store.active.current t))))
        (atSweep t (store.active.current t) (some e) (start t store tracker) .reporting) := by
      cases w.activeNodes (store.active.current t) with
      | nil => exact path_between_nil job t w _ (some e) _
      | cons i nodes => exact .single rfl
    exact hstop.trans (path_reporting job t w _ (some e) hsound)
  | none =>
    simp only [Option.isSome_none, Bool.false_eq_true, if_false]
    obtain ⟨hpath, hsound'⟩ := path_visitAll job t w (store.active.current t) hsound
      (w.activeNodes (store.active.current t))
    refine hpath.trans ?_
    generalize visitAll job t w.view (start t store tracker)
      (w.activeNodes (store.active.current t)) = x at hsound' ⊢
    cases hfault : x.failure with
    | some e =>
      simp only [orFailing, hfault, Option.isSome_some, if_true, close]
      exact path_failing job t w _ none x e
    | none =>
      rw [orFailing_of_none hfault]
      simp only [Option.isSome_none, Bool.false_eq_true, if_false]
      have hreporting := path_reporting job t w (store.active.current t) none (hsound' hfault)
      exact (path_between_nil job t w _ none x).trans hreporting

end Worker

/-! ## One worker after the other -/

namespace Crew

variable {W V M T : Type}

/-- The first `k` workers are through with the superstep and have made `r` of it; the others have
    not begun. -/
structure AfterTurns (k : Nat) (r : Round V M T) (c : Crew V M T) : Prop where
  shared_eq : c.shared = ⟨r.store, r.tracker, r.failure.isSome, r.failure⟩
  done : ∀ j < k, ∃ failed, (c.hands j).stage = .done failed
  hands_eq : ∀ j, k ≤ j → c.hands j = .start
  counts_eq : c.counts k = r.tally

variable [Message M] {job : Job W V M T} {t : Nat} {workers : List Worker}

/-- The turn of a worker, read off from where its actions end. -/
theorem turn_eq_close (job : Job W V M T) (t : Nat) (w : Worker) (r : Round V M T)
    {y : Hand V M × Shared V M T} (hy : y = Worker.close t w (r.store.active.current t) r.failure
      (w.process job t r.failure.isSome r.store r.tracker).2) :
    r.turn job t w = ⟨y.2.store, y.2.tracker, r.tally.add y.1.counts, y.2.failure⟩ ∧
      y.2.aborted = y.2.failure.isSome ∧ ∃ failed, y.1.stage = .done failed := by
  subst hy
  obtain ⟨store, tracker, tally, failure⟩ := r
  unfold Round.turn Worker.close Worker.process
  simp only
  generalize Worker.sweep job t w.view (if failure.isSome then [] else
    w.activeNodes (store.active.current t)) (Worker.start t store tracker) = x
  cases hx : x.failure with
  | none => exact ⟨rfl, rfl, false, rfl⟩
  | some e =>
    refine ⟨rfl, ?_, true, rfl⟩
    cases failure <;> rfl

theorem steps_of_path {k : Nat} {w : Worker} (hw : workers[k]? = some w)
    (hands : Nat → Hand V M) {x y : Hand V M × Shared V M T} (h : Worker.Path job t w x y) :
    Relation.ReflTransGen (Step job t workers) ⟨Function.update hands k x.1, x.2⟩
      ⟨Function.update hands k y.1, y.2⟩ := by
  induction h with
  | refl => exact .refl
  | @tail y z _ hact ih =>
    have hcurrent : w.act job t (Function.update hands k y.1 k) y.2 = some (z.1, z.2) := by
      rw [Function.update_self]
      exact hact
    have hstep := Step.act (c := ⟨Function.update hands k y.1, y.2⟩) hw hcurrent
    simp only [Function.update_idem] at hstep
    exact ih.tail hstep

/-- The turn of a worker is one of the ways in which the superstep goes on. -/
theorem AfterTurns.turn {k : Nat} {r : Round V M T} {c : Crew V M T} (hc : c.AfterTurns k r)
    {w : Worker} (hw : workers[k]? = some w) :
    ∃ c', Relation.ReflTransGen (Step job t workers) c c' ∧
      c'.AfterTurns (k + 1) (r.turn job t w) := by
  have hpath := steps_of_path hw c.hands
    (Worker.path_process job t w r.failure r.store r.tracker)
  obtain ⟨hturn, haborted, hfailed⟩ := turn_eq_close job t w r rfl
  generalize Worker.close t w (r.store.active.current t) r.failure
    (w.process job t r.failure.isSome r.store r.tracker).2 = y at hpath hturn haborted hfailed
  have hself : Function.update c.hands k .start = c.hands := by
    rw [← hc.hands_eq k le_rfl]
    exact Function.update_eq_self k c.hands
  simp only [hself, ← hc.shared_eq] at hpath
  refine ⟨_, hpath, ?_⟩
  rw [hturn]
  refine ⟨?_, ?_, ?_, ?_⟩
  · rw [← haborted]
  · intro j hj
    show ∃ failed, (Function.update c.hands k y.1 j).stage = .done failed
    rcases Nat.lt_succ_iff_lt_or_eq.1 hj with hlt | rfl
    · rw [Function.update_of_ne (by omega)]
      exact hc.done j hlt
    · rw [Function.update_self]
      exact hfailed
  · intro j hj
    show Function.update c.hands k y.1 j = .start
    rw [Function.update_of_ne (by omega)]
    exact hc.hands_eq j (by omega)
  · have hbefore : counts ⟨Function.update c.hands k y.1, y.2⟩ k = c.counts k :=
      counts_congr fun j hj => Function.update_of_ne (by omega) _ _
    rw [counts_succ, hbefore, hc.counts_eq]
    show r.tally.add (Function.update c.hands k y.1 k).counts = r.tally.add y.1.counts
    rw [Function.update_self]

theorem AfterTurns.turns (job : Job W V M T) (t : Nat) {before : List Worker} (after : List Worker)
    {r : Round V M T} {c : Crew V M T} (hc : c.AfterTurns before.length r) :
    ∃ c', Relation.ReflTransGen (Step job t (before ++ after)) c c' ∧
      c'.AfterTurns (before ++ after).length (after.foldl (Round.turn job t) r) := by
  induction after generalizing before r c with
  | nil =>
    rw [List.append_nil]
    exact ⟨c, .refl, hc⟩
  | cons w after ih =>
    have hw : (before ++ w :: after)[before.length]? = some w := by simp
    obtain ⟨c₁, hfirst, hc₁⟩ := hc.turn hw
    have hsplit : before ++ w :: after = (before ++ [w]) ++ after := by simp
    have hlength : before.length + 1 = (before ++ [w]).length := by simp
    rw [hlength] at hc₁
    obtain ⟨c₂, hrest, hc₂⟩ := ih hc₁
    rw [hsplit] at hfirst ⊢
    exact ⟨c₂, hfirst.trans hrest, hc₂⟩

end Crew

section

variable {W V M T : Type} [Message M]

theorem interleaving_play (job : Job W V M T) (workers : List Worker) (t : Nat)
    (store : NodeStore V M) (tracker : T) :
    Interleaving job t workers store tracker (Round.play job workers t store tracker) := by
  have hstart : (Crew.start store tracker : Crew V M T).AfterTurns ([] : List Worker).length
      ⟨store, tracker, Tally.zero, none⟩ :=
    ⟨rfl, fun j hj => absurd hj (Nat.not_lt_zero j), fun _ _ => rfl, rfl⟩
  obtain ⟨c, hsteps, hc⟩ := hstart.turns job t workers
  refine ⟨c, hsteps, hc.done, ?_⟩
  have hcounts := hc.counts_eq
  rw [List.nil_append] at hcounts
  unfold Crew.round
  rw [hc.shared_eq, hcounts]
  rfl

/-- The schedule that lets one worker after the other take all of its actions. -/
def Schedule.inOrder (job : Job W V M T) : Schedule job := ⟨Round.play job, interleaving_play job⟩

theorem under_inOrder [Memory.Allocator] (r : Run W V M) (tracker : Tracker T) (state : T)
    (flag : TerminationFlag) :
    r.perform tracker state flag = Run.under (.inOrder (r.job tracker)) state flag :=
  rfl

end

end Superstep
