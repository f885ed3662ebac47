import Superstep.Proofs.Crew.InOrder
import Superstep.Proofs.Machine.Agreement
import Superstep.Proofs.Run.Course

/-!
# Combining messages does not matter

A run may combine the messages for a node while they arrive, or keep them all. When the reduction is
order-free and the steps come to the same on messages and on what these are reduced to, the two runs
hold the same values and the same active nodes. In the mailboxes of the first run are the messages
of the second one, reduced.

Results:
* `Frame.Reduced.after`: frames that differ by a reduction of their messages stay so.
* `combiner_transparent`: a run with a combiner and the run without it agree after every superstep,
  and in their results.
-/

namespace Superstep

/-! ## Frames that differ by a reduction -/

/-- The second frame holds messages, and the first one what these are reduced to. -/
structure Frame.Reduced {V M : Type} [Message M] (reduction : Reduction M) (f f' : Frame V M) :
    Prop where
  value : f'.value = f.value
  active : f'.active = f.active
  inbox : ∀ i, f.inbox i = reduction.collect (f'.inbox i)

/-- The second machine takes the same steps as the first one, and keeps all messages. -/
structure Program.Keeps {W V M : Type} (p p' : Program W V M) : Prop where
  graph : p'.graph = p.graph
  step : p'.computation.step = p.computation.step
  isCombining : p'.reduction.isCombining = false

/-- Two supersteps that differ in how many messages are combined: in the first one, all but one for
    each target, and in the second one, none. -/
structure SuperstepStats.Combined (targets : Nat) (a b : SuperstepStats) : Prop where
  activeNodes : b.activeNodes = a.activeNodes
  messagesSent : b.messagesSent = a.messagesSent
  nextActiveNodes : b.nextActiveNodes = a.nextActiveNodes
  combined : a.messagesCombined + targets = a.messagesSent
  kept : b.messagesCombined = 0

namespace Frame.Reduced

variable {W V M : Type} [Message M] {p p' : Program W V M} {t : Nat} {f f' : Frame V M}

theorem agree (h : Reduced p.reduction f f') (hp : p.Keeps p') (hfree : p.reduction.OrderFree)
    (hreduce : p.computation.ReducesBy p.reduction) : Agree p p' t f f' := by
  refine ⟨hp.graph, h.value, h.active, ?_⟩
  intro i _
  unfold Program.outcome
  rw [hp.step, hp.graph, h.value, h.inbox i]
  cases hmessages : f'.inbox i with
  | nil =>
    rw [Reduction.collect_nil]
    exact .refl _
  | cons m rest =>
    rw [Reduction.collect_cons_of_combining hfree.isCombining]
    exact (hreduce ⟨p.graph, .ofIndex i, t, f.value i, m :: rest⟩ m rest rfl).symm

theorem after (h : Reduced p.reduction f f') (hp : p.Keeps p') (hfree : p.reduction.OrderFree)
    (hreduce : p.computation.ReducesBy p.reduction) {arrived arrived' : List (NodeId × M)}
    (hperm : arrived.Perm (p.traffic f t)) (hperm' : arrived'.Perm (p'.traffic f' t)) :
    Reduced p.reduction (p.after f t arrived) (p'.after f' t arrived') := by
  have hagree := h.agree (t := t) hp hfree hreduce
  rw [hagree.traffic_eq] at hperm'
  have hsame := hperm.trans hperm'.symm
  obtain ⟨hvalue, hactive⟩ := hagree.after hsame
  refine ⟨hvalue, hactive, ?_⟩
  intro v
  show p.reduction.collect (arrivals arrived v) =
    p.reduction.collect (p'.reduction.collect (arrivals arrived' v))
  rw [Reduction.collect_of_not_combining hp.isCombining, hfree.collect_perm (arrivals_perm hsame v)]

theorem stats_combined (h : Reduced p.reduction f f') (hp : p.Keeps p')
    (hfree : p.reduction.OrderFree) (hreduce : p.computation.ReducesBy p.reduction) :
    (p.stats f t).Combined (targets (p.traffic f t)).card (p'.stats f' t) := by
  have hagree := h.agree (t := t) hp hfree hreduce
  have htraffic := hagree.traffic_eq
  refine ⟨congrArg Finset.card h.active, congrArg List.length htraffic, ?_, ?_, ?_⟩
  · show (p'.after f' t (p'.traffic f' t)).active.card = (p.after f t (p.traffic f t)).active.card
    rw [htraffic, (hagree.after .rfl).2]
  · show (p.traffic f t).length - p.reduction.left (p.traffic f t) + _ = (p.traffic f t).length
    rw [Reduction.left_of_combining hfree.isCombining]
    exact Nat.sub_add_cancel (card_targets_le _)
  · show (p'.traffic f' t).length - p'.reduction.left (p'.traffic f' t) = 0
    rw [Reduction.left_of_not_combining hp.isCombining, Nat.sub_self]

end Frame.Reduced

/-! ## Runs -/

variable {W V M T T' : Type} [Message M]

/-- Two runs that differ in the number of workers, and of which the second one has no combiner. -/
structure Run.Plain (r r' : Run W V M) : Prop where
  graph : r'.graph = r.graph
  computation : r'.computation = { r.computation with combiner := none }
  config : r'.config =
    { r.config with combiner := .none, concurrency := r'.config.concurrency }

namespace Run.Plain

variable {r r' : Run W V M}

theorem nodeCount_eq (h : r.Plain r') : r'.nodeCount = r.nodeCount := by
  unfold Run.nodeCount
  rw [h.graph]

theorem keeps (h : r.Plain r') : r.program.Keeps r'.program := by
  refine ⟨h.graph, ?_, ?_⟩
  · show r'.computation.step = r.computation.step
    rw [h.computation]
  · show (Reduction.choose r'.computation.combiner r'.config.combiner).isCombining = false
    rw [h.computation, h.config]
    rfl

theorem reduced_initialFrame (h : r.Plain r') :
    Frame.Reduced r.reduction r.initialFrame r'.initialFrame := by
  have hinit : r'.computation.init = r.computation.init := by rw [h.computation]
  have hactive : r'.config.initialActive = r.config.initialActive := by rw [h.config]
  unfold initialFrame initialNodes
  rw [h.nodeCount_eq, h.graph, hinit, hactive]
  exact ⟨rfl, rfl, fun _ => (Reduction.collect_nil _).symm⟩

/-- The frames of the first run are those of its machine, and those of the second run hold the same
    values, the same active nodes and the messages before they are reduced. -/
theorem course (h : r.Plain r') (hfree : r.reduction.OrderFree)
    (hreduce : r.computation.ReducesBy r.reduction) {flag : TerminationFlag} {k : Nat}
    {f f' : Frame V M} {stats stats' : List SuperstepStats} (hcourse : r.Course flag k f stats)
    (hcourse' : r'.Course flag k f' stats') :
    Frame.Reduced r.reduction f f' ∧ ∀ j < k, ∃ a b, stats[j]? = some a ∧ stats'[j]? = some b ∧
      a.Combined (targets (r.program.traffic (r.program.frame r.initialFrame j) j)).card b := by
  obtain ⟨⟨-, hreduced⟩, hstats⟩ := hcourse.simulation
    (fun k f f' => f = r.program.frame r.initialFrame k ∧ Frame.Reduced r.reduction f f')
    (fun k a b =>
      a.Combined (targets (r.program.traffic (r.program.frame r.initialFrame k) k)).card b)
    ⟨rfl, h.reduced_initialFrame⟩
    (fun ⟨hframe, hreduced⟩ _ hperm hperm' =>
      ⟨by rw [Program.after_perm hfree _ _ hperm, hframe]; rfl,
        hreduced.after h.keeps hfree hreduce hperm hperm'⟩)
    (fun ⟨hframe, hreduced⟩ _ => hframe ▸ hreduced.stats_combined h.keeps hfree hreduce)
    hcourse'
  exact ⟨hreduced, hstats⟩

end Run.Plain

/-- A run with an order-free combiner, whose steps come to the same on messages and on what these
    are reduced to, and the run without a combiner: after every number of supersteps that both have
    completed they have the same values and the same active nodes, and they differ in no count but
    that of the combined messages; and so do their results. -/
theorem combiner_transparent [Memory.Allocator] (r r' : Run W V M) (hplain : r.Plain r')
    (hfree : r.reduction.OrderFree) (hreduce : r.computation.ReducesBy r.reduction)
    {tracker : Tracker T} {tracker' : Tracker T'} (schedule : Schedule (r.job tracker))
    (schedule' : Schedule (r'.job tracker')) (state : T) (state' : T') (flag : TerminationFlag) :
    (∀ k d d', r.after schedule state flag k = some d → r'.after schedule' state' flag k = some d' →
      (∀ i, d'.store.values.get? i = d.store.values.get? i) ∧
      (∀ i, (d'.store.active.current k).Has i ↔ (d.store.active.current k).Has i) ∧
      ∀ j < k, ∃ a b, d.supersteps[j]? = some a ∧ d'.supersteps[j]? = some b ∧
        a.Combined (targets (r.program.traffic (r.program.frame r.initialFrame j) j)).card b) ∧
    ∀ result result', (Run.under schedule state flag).ending = .finished result →
      (Run.under schedule' state' flag).ending = .finished result' →
        (∀ i < r.nodeCount, result'.values.get? i = result.values.get? i) ∧
        result'.ranIterations = result.ranIterations ∧
        result'.didConverge = result.didConverge ∧
        result'.termination = result.termination ∧
        ∀ j < result.ranIterations, ∃ a b,
          result.supersteps[j]? = some a ∧ result'.supersteps[j]? = some b ∧
          a.Combined (targets (r.program.traffic (r.program.frame r.initialFrame j) j)).card b := by
  constructor
  · intro k d d' h h'
    obtain ⟨f, hat⟩ := Run.exists_course h
    obtain ⟨f', hat'⟩ := Run.exists_course h'
    obtain ⟨hreduced, hstats⟩ := hplain.course hfree hreduce hat.course hat'.course
    obtain ⟨hvalues, hactive⟩ :=
      hat.store_eq hat' hplain.nodeCount_eq hreduced.value hreduced.active
    refine ⟨hvalues, hactive, ?_⟩
    intro j hj
    simpa using hstats j hj
  · intro result result' h h'
    have hlimit : r'.config.maxIterations = r.config.maxIterations := by rw [hplain.config]
    obtain ⟨hvalues, hran, htermination, f, f', hcourse, hcourse'⟩ :=
      Run.finished_agree hplain.nodeCount_eq hlimit
        (fun hc hc' => by
          obtain ⟨hreduced, -⟩ := hplain.course hfree hreduce hc hc'
          exact ⟨hreduced.value, hreduced.active⟩) h h'
    obtain ⟨-, hstats⟩ := hplain.course hfree hreduce hcourse hcourse'
    refine ⟨hvalues, hran, ?_, htermination, ?_⟩
    · unfold RunResult.didConverge
      rw [htermination]
    · intro j hj
      simpa using hstats j hj

theorem Components.reducesBy_min {W : Type} :
    (Components.computation (W := W)).ReducesBy (.builtin .min) := by
  intro view m rest h
  show (Components.step view).Same (Components.step _)
  unfold Components.step
  rw [h]
  exact .refl _

/-- On two nodes that tell each other their label nothing is combined. -/
theorem combiner_transparent_twoNodes :
    let r := twoNodesRun .min 1 rfl
    let r' := twoNodesRun .none 1 rfl
    r.Plain r' ∧ r.reduction.OrderFree ∧ r.computation.ReducesBy r.reduction ∧
      ∃ d d', r.after (.inOrder (r.job Tracker.silent)) () .never 1 = some d ∧
        r'.after (.inOrder (r'.job Tracker.silent)) () .never 1 = some d' ∧
        (∀ i, d'.store.values.get? i = d.store.values.get? i) ∧
        ∃ a b, d.supersteps[0]? = some a ∧ d'.supersteps[0]? = some b ∧ a.Combined 2 b := by
  have hplain : (twoNodesRun .min 1 rfl).Plain (twoNodesRun .none 1 rfl) := ⟨rfl, rfl, rfl⟩
  have hfree : (twoNodesRun .min 1 rfl).reduction.OrderFree :=
    Reduction.orderFree_unsigned 64 (.inr (.inl rfl))
  have hreduce : (twoNodesRun .min 1 rfl).computation.ReducesBy
      (twoNodesRun .min 1 rfl).reduction := Components.reducesBy_min
  refine ⟨hplain, hfree, hreduce, ?_⟩
  obtain ⟨d, hd⟩ := exists_after_twoNodesRun (h := rfl) ⟨_, _, rfl⟩
    (.inOrder ((twoNodesRun .min 1 rfl).job Tracker.silent))
  obtain ⟨d', hd'⟩ := exists_after_twoNodesRun (h := rfl) ⟨_, _, rfl⟩
    (.inOrder ((twoNodesRun .none 1 rfl).job Tracker.silent))
  obtain ⟨hagree, -⟩ := combiner_transparent _ _ hplain hfree hreduce
    (.inOrder ((twoNodesRun .min 1 rfl).job Tracker.silent))
    (.inOrder ((twoNodesRun .none 1 rfl).job Tracker.silent)) () () .never
  obtain ⟨hvalues, -, hstats⟩ := hagree 1 d d' hd hd'
  exact ⟨d, d', hd, hd', hvalues, hstats 0 (by decide)⟩

end Superstep
