import Superstep.Proofs.Machine.Frame

/-!
# Frames on which the steps come to the same

Two frames may hold different messages and still have steps that come to the same: because the steps
do not look at the order of their messages, or because the messages of one frame are those of the
other one reduced. What follows is the same traffic, the same values and the same active nodes. The
values and the active nodes are the same even when the messages of each node are sent in another
order (`Corresponds`).

Results:
* `Agree.traffic_eq`: the same messages are sent.
* `Corresponds.after`, `Agree.after`: the next values and the next active nodes are the same.
* `after_perm`: with an order-free reduction the next frame does not depend on the order in which
  the messages arrive.
-/

namespace Superstep

/-- Two outcomes with the same value, the same messages and the same vote. -/
structure Outcome.Same {V M : Type} (o o' : Outcome V M) : Prop where
  value : o'.value = o.value
  sends : o'.sends = o.sends
  halt : o'.halt = o.halt

theorem Outcome.Same.refl {V M : Type} (o : Outcome V M) : o.Same o := ⟨rfl, rfl, rfl⟩

theorem Outcome.Same.symm {V M : Type} {o o' : Outcome V M} (h : o.Same o') : o'.Same o :=
  ⟨h.value.symm, h.sends.symm, h.halt.symm⟩

/-- The steps of a computation come to the same for every arrangement of their messages. -/
def Computation.OrderBlind {W V M : Type} (c : Computation W V M) : Prop :=
  ∀ (view : NodeView W V M) (messages : List M), view.messages.Perm messages →
    (c.step view).Same (c.step { view with messages })

/-- The steps of a computation come to the same on messages and on what these are reduced to. -/
def Computation.ReducesBy {W V M : Type} [Message M] (c : Computation W V M) (r : Reduction M) :
    Prop :=
  ∀ (view : NodeView W V M) (m : M) (rest : List M), view.messages = m :: rest →
    (c.step view).Same (c.step { view with messages := [rest.foldl r.apply m] })

/-- Two machines with as many nodes hold the same values, and the steps of their active nodes take
    the same values, vote alike and send the same messages in some order. -/
structure Corresponds {W V M : Type} (p p' : Program W V M) (t : Nat) (f f' : Frame V M) :
    Prop where
  nodeCount : p'.nodeCount = p.nodeCount
  value : f'.value = f.value
  active : f'.active = f.active
  step : ∀ i ∈ f.active, (p'.outcome f' t i).value = (p.outcome f t i).value ∧
    (p'.outcome f' t i).halt = (p.outcome f t i).halt
  letters : ∀ i ∈ f.active, (p.letters f t i).Perm (p'.letters f' t i)

namespace Corresponds

variable {W V M : Type} {p p' : Program W V M} {t : Nat} {f f' : Frame V M}

theorem nodes_eq (h : Corresponds p p' t f f') : p'.nodes f' = p.nodes f := by
  unfold Program.nodes
  rw [h.nodeCount, h.active]

theorem traffic_perm (h : Corresponds p p' t f f') :
    (p.traffic f t).Perm (p'.traffic f' t) := by
  unfold Program.traffic
  rw [h.nodes_eq]
  apply List.Perm.flatMap_left
  intro i hi
  exact h.letters i (Program.mem_nodes.1 hi).2

variable [Message M]

/-- The next values and the next active nodes are the same, in whatever order messages arrive. -/
theorem after (h : Corresponds p p' t f f') {arrived arrived' : List (NodeId × M)}
    (hperm : arrived.Perm arrived') :
    (p'.after f' t arrived').value = (p.after f t arrived).value ∧
      (p'.after f' t arrived').active = (p.after f t arrived).active := by
  constructor
  · funext i
    show (if i ∈ f'.active then _ else _) = if i ∈ f.active then _ else _
    rw [h.active]
    split_ifs with hi
    · exact (h.step i hi).1
    · exact congrFun h.value i
  · ext v
    simp only [Program.mem_active_after, h.active, h.nodeCount, hperm.mem_iff]
    refine or_congr_left (and_congr_right ?_)
    intro hv
    rw [(h.step v hv).2]

end Corresponds

/-- Two machines on the same graph hold the same values, and the steps of their active nodes come to
    the same. -/
structure Agree {W V M : Type} (p p' : Program W V M) (t : Nat) (f f' : Frame V M) : Prop where
  graph : p'.graph = p.graph
  value : f'.value = f.value
  active : f'.active = f.active
  outcome : ∀ i ∈ f.active, (p.outcome f t i).Same (p'.outcome f' t i)

namespace Agree

variable {W V M : Type} {p p' : Program W V M} {t : Nat} {f f' : Frame V M}

theorem nodeCount_eq (h : Agree p p' t f f') : p'.nodeCount = p.nodeCount := by
  unfold Program.nodeCount
  rw [h.graph]

theorem letters_eq (h : Agree p p' t f f') {i : Nat} (hi : i ∈ f.active) :
    p'.letters f' t i = p.letters f t i := by
  unfold Program.letters
  rw [(h.outcome i hi).sends, h.graph]

theorem corresponds (h : Agree p p' t f f') : Corresponds p p' t f f' where
  nodeCount := h.nodeCount_eq
  value := h.value
  active := h.active
  step i hi := ⟨(h.outcome i hi).value, (h.outcome i hi).halt⟩
  letters i hi := by rw [h.letters_eq hi]

theorem traffic_eq (h : Agree p p' t f f') : p'.traffic f' t = p.traffic f t := by
  unfold Program.traffic
  rw [h.corresponds.nodes_eq]
  refine List.flatMap_congr ?_
  intro i hi
  exact h.letters_eq (Program.mem_nodes.1 hi).2

variable [Message M]

theorem after (h : Agree p p' t f f') {arrived arrived' : List (NodeId × M)}
    (hperm : arrived.Perm arrived') :
    (p'.after f' t arrived').value = (p.after f t arrived).value ∧
      (p'.after f' t arrived').active = (p.after f t arrived).active :=
  h.corresponds.after hperm

end Agree

/-- Of the messages that arrive the next frame shows only what the mailboxes make of them. -/
theorem Program.after_congr {W V M : Type} [Message M] {p : Program W V M} (f : Frame V M) (t : Nat)
    {arrived arrived' : List (NodeId × M)} (h : ∀ v, p.reduction.collect (arrivals arrived v) =
      p.reduction.collect (arrivals arrived' v)) : p.after f t arrived = p.after f t arrived' := by
  unfold after
  simp only [h]

/-- With an order-free reduction the next frame does not depend on the order in which the messages
    arrive. -/
theorem Program.after_perm {W V M : Type} [Message M] {p : Program W V M}
    (hfree : p.reduction.OrderFree) (f : Frame V M) (t : Nat) {arrived arrived' : List (NodeId × M)}
    (h : arrived.Perm arrived') : p.after f t arrived = p.after f t arrived' :=
  after_congr f t fun v => hfree.collect_perm (arrivals_perm h v)

end Superstep
