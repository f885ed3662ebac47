import Superstep.Proofs.Crew.InOrder
import Superstep.Proofs.Machine.Agreement
import Superstep.Proofs.Run.Course

/-!
# Workers and schedules do not matter

The number of workers and the schedule decide only in which order the messages of a superstep
arrive. When the reduction is order-free, the frames of a course do not depend on it. When all
messages are kept and the steps do not look at their order, the frames differ in that order and in
nothing else.

Results:
* `Frame.Alike.after`: frames that differ in the order of their messages stay so.
* `schedule_independent`: two runs that differ in the number of workers and in the schedule agree
  after every superstep, and in their results.
-/

namespace Superstep

/-! ## Frames that differ in the order of messages -/

/-- Two frames that differ only in the order of the messages that wait. -/
structure Frame.Alike {V M : Type} (f f' : Frame V M) : Prop where
  value : f'.value = f.value
  active : f'.active = f.active
  inbox : ∀ i, (f.inbox i).Perm (f'.inbox i)

/-- The order of messages does not matter to a machine: because it combines them by an order-free
    reduction, or because it keeps them all and its steps do not look at their order. -/
def Program.Unordered {W V M : Type} [Message M] (p : Program W V M) : Prop :=
  p.reduction.OrderFree ∨ (p.reduction.isCombining = false ∧ p.computation.OrderBlind)

theorem Frame.Alike.refl {V M : Type} (f : Frame V M) : f.Alike f := ⟨rfl, rfl, fun _ => .rfl⟩

theorem Frame.Alike.symm {V M : Type} {f f' : Frame V M} (h : f.Alike f') : f'.Alike f :=
  ⟨h.value.symm, h.active.symm, fun i => (h.inbox i).symm⟩

namespace Corresponds

variable {W V M : Type} [Message M] {p p' : Program W V M} {t : Nat} {f f' : Frame V M}

/-- Messages that are kept, or reduced in a way for which their order does not matter, leave frames
    that differ in nothing but their order. -/
theorem alike_after (h : Corresponds p p' t f f') (hreduction : p'.reduction = p.reduction)
    (horder : p.reduction.OrderFree ∨ p.reduction.isCombining = false)
    {arrived arrived' : List (NodeId × M)} (hperm : arrived.Perm (p.traffic f t))
    (hperm' : arrived'.Perm (p'.traffic f' t)) :
    (p.after f t arrived).Alike (p'.after f' t arrived') := by
  have hsame : arrived.Perm arrived' := hperm.trans (h.traffic_perm.trans hperm'.symm)
  obtain ⟨hvalue, hactive⟩ := h.after hsame
  refine ⟨hvalue, hactive, ?_⟩
  intro v
  show (p.reduction.collect (arrivals arrived v)).Perm
    (p'.reduction.collect (arrivals arrived' v))
  rw [hreduction]
  rcases horder with hfree | hkeep
  · rw [hfree.collect_perm (arrivals_perm hsame v)]
  · rw [Reduction.collect_of_not_combining hkeep, Reduction.collect_of_not_combining hkeep]
    exact arrivals_perm hsame v

theorem stats_eq (h : Corresponds p p' t f f') (hreduction : p'.reduction = p.reduction) :
    p'.stats f' t = p.stats f t := by
  have hnext : (p'.next f' t).active = (p.next f t).active := (h.after h.traffic_perm).2
  unfold Program.stats
  rw [hnext, h.active, h.traffic_perm.length_eq, hreduction,
    p.reduction.left_perm h.traffic_perm]

end Corresponds

namespace Frame.Alike

variable {W V M : Type} [Message M] {p : Program W V M} {t : Nat} {f f' : Frame V M}

/-- With an order-free reduction there is at most one message for each node, so that there is no
    order. -/
theorem inbox_eq (h : f.Alike f') (hfree : p.reduction.OrderFree) (hf : f.Proper p) (i : Nat) :
    f'.inbox i = f.inbox i := by
  have hlength := hf.length_le hfree.isCombining i
  have hperm := h.inbox i
  match hmessages : f.inbox i with
  | [] =>
    rw [hmessages] at hperm
    exact List.nil_perm.1 hperm
  | [m] =>
    rw [hmessages] at hperm
    exact List.singleton_perm.1 hperm |>.symm
  | _ :: _ :: _ =>
    rw [hmessages] at hlength
    exact absurd hlength (by simp)

theorem agree (h : f.Alike f') (hp : p.Unordered) (hf : f.Proper p) : Agree p p t f f' := by
  refine ⟨rfl, h.value, h.active, ?_⟩
  intro i _
  unfold Program.outcome
  rw [h.value]
  rcases hp with hfree | ⟨-, hblind⟩
  · rw [h.inbox_eq hfree hf]
    exact .refl _
  · exact hblind _ _ (h.inbox i)

theorem after (h : f.Alike f') (hp : p.Unordered) (hf : f.Proper p)
    {arrived arrived' : List (NodeId × M)} (hperm : arrived.Perm (p.traffic f t))
    (hperm' : arrived'.Perm (p.traffic f' t)) :
    (p.after f t arrived).Alike (p.after f' t arrived') :=
  (h.agree hp hf).corresponds.alike_after rfl (hp.imp_right And.left) hperm hperm'

theorem stats_eq (h : f.Alike f') (hp : p.Unordered) (hf : f.Proper p) :
    p.stats f' t = p.stats f t :=
  (h.agree hp hf).corresponds.stats_eq rfl

end Frame.Alike

/-! ## Runs -/

variable {W V M T T' : Type} [Message M]

/-- Two runs that start alike go through frames that are alike, with the same counts, if the steps
    of such frames correspond and the order of messages is lost or kept. -/
theorem Run.Course.alike_of_corresponds {r r' : Run W V M} {flag flag' : TerminationFlag} {k : Nat}
    {f f' : Frame V M} {stats stats' : List SuperstepStats}
    (hstart : r.initialFrame.Alike r'.initialFrame)
    (hreduction : r'.program.reduction = r.program.reduction)
    (horder : r.program.reduction.OrderFree ∨ r.program.reduction.isCombining = false)
    (hstep : ∀ {k f f'}, f.Alike f' → f.Proper r.program →
      Corresponds r.program r'.program k f f')
    (h : r.Course flag k f stats) (h' : r'.Course flag' k f' stats') :
    f.Alike f' ∧ stats' = stats := by
  obtain ⟨halike, hstats⟩ := h.simulation (fun _ f f' => f.Alike f') (fun _ a b => b = a) hstart
    (fun halike hproper hperm hperm' =>
      (hstep halike hproper).alike_after hreduction horder hperm hperm')
    (fun halike hproper => (hstep halike hproper).stats_eq hreduction) h'
  refine ⟨halike, List.ext_getElem? ?_⟩
  intro j
  have hlength := h.length_eq
  have hlength' := h'.length_eq
  by_cases hj : j < k
  · obtain ⟨a, b, ha, hb, rfl⟩ := hstats j hj
    rw [ha, hb]
  · rw [List.getElem?_eq_none (by omega), List.getElem?_eq_none (by omega)]

/-- Two runs with the same machine that start alike go through frames that are alike. -/
theorem Run.Course.alike {r r' : Run W V M} {flag flag' : TerminationFlag} {k : Nat}
    {f f' : Frame V M} {stats stats' : List SuperstepStats} (hprogram : r'.program = r.program)
    (hinitial : r'.initialFrame = r.initialFrame) (hp : r.program.Unordered)
    (h : r.Course flag k f stats) (h' : r'.Course flag' k f' stats') :
    f.Alike f' ∧ stats' = stats := by
  refine h.alike_of_corresponds ?_ (by rw [hprogram]) (hp.imp_right And.left) ?_ h'
  · rw [hinitial]
    exact .refl _
  · intro k f f' halike hproper
    rw [hprogram]
    exact (halike.agree hp hproper).corresponds

/-- The machine of a run and the frame in which it starts depend on the graph, the computation, the
    combiner and the initially active nodes. -/
theorem Run.program_eq {r r' : Run W V M} (hgraph : r'.graph = r.graph)
    (hcomputation : r'.computation = r.computation)
    (hcombiner : r'.config.combiner = r.config.combiner)
    (hactive : r'.config.initialActive = r.config.initialActive) :
    r'.program = r.program ∧ r'.initialFrame = r.initialFrame := by
  unfold program initialFrame initialNodes Run.reduction Run.nodeCount
  rw [hgraph, hcomputation, hcombiner, hactive]
  exact ⟨rfl, rfl⟩

theorem Run.program_eq_of_config {r r' : Run W V M} (hgraph : r'.graph = r.graph)
    (hcomputation : r'.computation = r.computation)
    (hconfig : r'.config = { r.config with concurrency := r'.config.concurrency }) :
    r'.program = r.program ∧ r'.initialFrame = r.initialFrame :=
  Run.program_eq hgraph hcomputation (by rw [hconfig]) (by rw [hconfig])

/-- Two runs that differ in the number of workers and in the schedule, on a machine to which the
    order of messages does not matter: after every number of supersteps that both have completed
    they have the same values, the same active nodes, the same messages up to their order, and the
    same counts; and their results have the same values, the same counts and the same termination.
    The sum, the minimum and the maximum of integers, and the minimum and the maximum of node ids,
    are order-free. -/
theorem schedule_independent [Memory.Allocator] (r r' : Run W V M) (hgraph : r'.graph = r.graph)
    (hcomputation : r'.computation = r.computation)
    (hconfig : r'.config = { r.config with concurrency := r'.config.concurrency })
    (horder : r.reduction.OrderFree ∨
      (r.reduction.isCombining = false ∧ r.computation.OrderBlind))
    {tracker : Tracker T} {tracker' : Tracker T'} (schedule : Schedule (r.job tracker))
    (schedule' : Schedule (r'.job tracker')) (state : T) (state' : T') (flag : TerminationFlag) :
    (∀ k d d', r.after schedule state flag k = some d → r'.after schedule' state' flag k = some d' →
      (∀ i, d'.store.values.get? i = d.store.values.get? i) ∧
      (∀ i, (d'.store.active.current k).Has i ↔ (d.store.active.current k).Has i) ∧
      (∀ i < r.nodeCount, ∃ box box', d.store.mail.waiting? k i = some box ∧
        d'.store.mail.waiting? k i = some box' ∧ box.toList.Perm box'.toList) ∧
      d'.supersteps = d.supersteps) ∧
    (∀ result result', (Run.under schedule state flag).ending = .finished result →
      (Run.under schedule' state' flag).ending = .finished result' →
        (∀ i < r.nodeCount, result'.values.get? i = result.values.get? i) ∧
        result'.supersteps = result.supersteps ∧
        result'.ranIterations = result.ranIterations ∧
        result'.termination = result.termination) ∧
    (∀ n, ∀ kind ∈ [Combiner.sum, .min, .max],
      (Reduction.builtin kind : Reduction (Unsigned n)).OrderFree ∧
      (Reduction.builtin kind : Reduction (Signed n)).OrderFree) ∧
    ∀ kind ∈ [Combiner.min, .max], (Reduction.builtin kind : Reduction NodeId).OrderFree := by
  obtain ⟨hprogram, hinitial⟩ := Run.program_eq_of_config hgraph hcomputation hconfig
  have hcount : r'.nodeCount = r.nodeCount := by
    unfold Run.nodeCount
    rw [hgraph]
  refine ⟨?_, ?_, ?_, ?_⟩
  · intro k d d' h h'
    obtain ⟨f, hat⟩ := Run.exists_course h
    obtain ⟨f', hat'⟩ := Run.exists_course h'
    obtain ⟨halike, hstats⟩ := hat.course.alike hprogram hinitial horder hat'.course
    obtain ⟨hvalues, hactive⟩ := hat.store_eq hat' hcount halike.value halike.active
    refine ⟨hvalues, hactive, ?_, Array.toList_inj.1 hstats⟩
    intro i hi
    exact ⟨_, _, hat.store.inbox_eq i hi, hat'.store.inbox_eq i (hcount.trans_gt hi),
      halike.inbox i⟩
  · intro result result' h h'
    have hlimit : r'.config.maxIterations = r.config.maxIterations := by rw [hconfig]
    obtain ⟨hvalues, hran, htermination, f, f', hcourse, hcourse'⟩ :=
      Run.finished_agree hcount hlimit
        (fun hc hc' => by
          obtain ⟨halike, -⟩ := hc.alike hprogram hinitial horder hc'
          exact ⟨halike.value, halike.active⟩) h h'
    obtain ⟨-, hstats⟩ := hcourse.alike hprogram hinitial horder hcourse'
    exact ⟨hvalues, Array.toList_inj.1 hstats, hran, htermination⟩
  · intro n kind hkind
    have hkind : kind = .sum ∨ kind = .min ∨ kind = .max := by simpa using hkind
    exact ⟨Reduction.orderFree_unsigned n hkind, Reduction.orderFree_signed n hkind⟩
  · intro kind hkind
    exact Reduction.orderFree_nodeId (by simpa using hkind)

/-- One worker and two workers agree after a superstep on two nodes. -/
theorem schedule_independent_twoNodes :
    let r := twoNodesRun .min 1 rfl
    let r' := twoNodesRun .min 2 rfl
    r'.graph = r.graph ∧ r'.computation = r.computation ∧
      r'.config = { r.config with concurrency := r'.config.concurrency } ∧
      r.reduction.OrderFree ∧
      ∃ d d', r.after (.inOrder (r.job Tracker.silent)) () .never 1 = some d ∧
        r'.after (.inOrder (r'.job Tracker.silent)) () .never 1 = some d' ∧
        d'.supersteps = d.supersteps := by
  have hfree : (twoNodesRun .min 1 rfl).reduction.OrderFree :=
    Reduction.orderFree_unsigned 64 (.inr (.inl rfl))
  refine ⟨rfl, rfl, rfl, hfree, ?_⟩
  obtain ⟨d, hd⟩ := exists_after_twoNodesRun (h := rfl) ⟨_, _, rfl⟩
    (.inOrder ((twoNodesRun .min 1 rfl).job Tracker.silent))
  obtain ⟨d', hd'⟩ := exists_after_twoNodesRun (h := rfl) ⟨_, _, rfl⟩
    (.inOrder ((twoNodesRun .min 2 rfl).job Tracker.silent))
  obtain ⟨hagree, -⟩ := schedule_independent (twoNodesRun .min 1 rfl)
    (twoNodesRun .min 2 rfl) rfl rfl rfl (.inl hfree)
    (.inOrder ((twoNodesRun .min 1 rfl).job Tracker.silent))
    (.inOrder ((twoNodesRun .min 2 rfl).job Tracker.silent)) () () .never
  obtain ⟨-, -, -, hsupersteps⟩ := hagree 1 d d' hd hd'
  exact ⟨d, d', hd, hd', hsupersteps⟩

end Superstep
