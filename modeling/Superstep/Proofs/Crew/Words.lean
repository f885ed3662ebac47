import Superstep.Proofs.Crew.Superstep
import Superstep.Proofs.Storage.Walk

/-!
# Workers that read and clear word by word

`Worker.act` finds all active nodes of a worker at once, and removes all of them at once. In truth a
worker does both word by word, and the partitions of its neighbours may begin or end in the middle
of its words: while it goes through a word that it has loaded, its neighbours clear their bits of
that word. Here (`Worker.actWord`) loading a word and clearing a word are actions of their own.

Everything else is as before. A node of the next superstep is woken up by setting one bit of the
other bitset, and this is one action, together with the message or the count that goes with it. No
such action depends on the bits that are read and cleared, or on the list of the nodes to come.

Results:
* `Worker.actWord_of_blind`, `Worker.act_blind`: the actions that do not touch the active nodes of
  the superstep are those of `Worker.act`, whatever the bitset holds.
-/

namespace Superstep

/-! ## The actions of a worker -/

/-- A worker that goes through its active nodes word by word. -/
structure Scan (V M : Type) where
  /-- Where the worker stands, and its counts. The nodes that are still to come are not listed in
      its stage: `walk` finds them. -/
  hand : Hand V M
  walk : Bitset.SetBits
  /-- The number of words in which the worker has cleared its nodes. -/
  cleared : Nat
  /-- The nodes whose steps the worker has taken, in order. -/
  executed : List Nat

/-- The node whose step has just been taken. -/
def Stage.taken {V M : Type} : Stage V M → List Nat
  | .sending i _ _ _ _ => [i]
  | _ => []

/-- Replaces the bitset of the active nodes of superstep `t`. -/
def Shared.withCurrent {V M T : Type} (s : Shared V M T) (t : Nat) (b : Bitset) : Shared V M T :=
  { s with store := { s.store with active := s.store.active.setCurrent t b } }

namespace Scan

variable {V M : Type}

/-- A worker at the start of a superstep. -/
def start : Scan V M := ⟨.start, ⟨0, 0, 0, 0⟩, 0, []⟩

end Scan

/-- The next action of a worker, if it is not done and does not leave the words of the bitset. -/
def Worker.actWord {W V M T : Type} [Message M] (job : Job W V M T) (t : Nat) (w : Worker)
    (x : Scan V M) (s : Shared V M T) : Option (Scan V M × Shared V M T) :=
  match x.hand.stage with
  | .waiting =>
    some ({ x with
      hand := { x.hand with stage := .between [] }
      walk := (s.store.active.current t).walk w.partition.start w.partition.stop }, s)
  | .between _ =>
    match (s.store.active.current t).move x.walk with
    | .member i rest =>
      if s.aborted then
        some ({ x with hand := { x.hand with stage := .reporting }, walk := rest }, s)
      else
        let (hand, s) := w.pick job t x.hand s i []
        some ({ x with hand, walk := rest, executed := x.executed ++ hand.stage.taken }, s)
    | .word rest => some ({ x with walk := rest }, s)
    | .finished rest =>
      some ({ x with hand := { x.hand with stage := .reporting }, walk := rest }, s)
    | .outOfBounds => none
  | .clearing =>
    let word := w.partition.start / Bitset.wordBits + x.cleared
    if w.partition.start ≥ w.partition.stop ∨ word > (w.partition.stop - 1) / Bitset.wordBits then
      some ({ x with hand := { x.hand with stage := .done false } }, s)
    else
      ((s.store.active.current t).clearWord? w.partition.start w.partition.stop word).map fun b =>
        ({ x with cleared := x.cleared + 1 }, s.withCurrent t b)
  | _ => (w.act job t x.hand s).map fun (hand, s) => ({ x with hand, cleared := 0 }, s)

/-! ## All workers -/

/-- The workers of a superstep that go through their nodes word by word, and what they share. -/
structure WordCrew (V M T : Type) where
  scans : Nat → Scan V M
  shared : Shared V M T

namespace WordCrew

variable {W V M T : Type}

/-- The start of a superstep. -/
def start (store : NodeStore V M) (tracker : T) : WordCrew V M T :=
  ⟨fun _ => .start, .start store tracker⟩

/-- Some worker takes its next action. -/
inductive Step [Message M] (job : Job W V M T) (t : Nat) (workers : List Worker) :
    WordCrew V M T → WordCrew V M T → Prop
  | act {x : WordCrew V M T} {k : Nat} {w : Worker} {y : Scan V M} {s : Shared V M T} :
    workers[k]? = some w → w.actWord job t (x.scans k) x.shared = some (y, s) →
      Step job t workers x ⟨Function.update x.scans k y, s⟩

/-- The workers without their walks. -/
def crew (x : WordCrew V M T) : Crew V M T := ⟨fun k => (x.scans k).hand, x.shared⟩

end WordCrew

/-! ## What an action does not look at -/

/-- A worker that neither looks for its active nodes nor clears them. -/
def Stage.Blind {V M : Type} : Stage V M → Prop
  | .waiting | .between _ | .clearing => False
  | _ => True

/-- Lists the nodes that are still to come. -/
def Stage.withNodes {V M : Type} (nodes : List Nat) : Stage V M → Stage V M
  | .between _ => .between nodes
  | .sending i outcome lost attempts _ => .sending i outcome lost attempts nodes
  | .counted i _ => .counted i nodes
  | stage => stage

/-- Lists the nodes that are still to come. -/
def Hand.withNodes {V M : Type} (h : Hand V M) (nodes : List Nat) : Hand V M :=
  { h with stage := h.stage.withNodes nodes }

theorem Stage.withNodes_done {V M : Type} {nodes : List Nat} {stage : Stage V M} {failed : Bool} :
    stage.withNodes nodes = .done failed ↔ stage = .done failed := by
  cases stage <;> simp [withNodes]

theorem Hand.withNodes_of_done {V M : Type} {h : Hand V M} {failed : Bool}
    (hdone : h.stage = .done failed) (nodes : List Nat) : h.withNodes nodes = h := by
  obtain ⟨stage, tally, unreported⟩ := h
  obtain rfl : stage = .done failed := hdone
  rfl

namespace ActiveSet

variable (a : ActiveSet) (t : Nat) (b b' : Bitset)

theorem setCurrent_current : a.setCurrent t (a.current t) = a := by
  unfold setCurrent current
  split <;> rfl

theorem setCurrent_setCurrent : (a.setCurrent t b).setCurrent t b' = a.setCurrent t b' := by
  unfold setCurrent
  split <;> rfl

theorem setNext_setCurrent : (a.setCurrent t b).setNext t b' = (a.setNext t b').setCurrent t b := by
  unfold setCurrent setNext
  split <;> rfl

end ActiveSet

section

variable {W V M T : Type} {job : Job W V M T} {t : Nat} {w : Worker} {h h' : Hand V M}
  {s s' : Shared V M T} {b : Bitset}

namespace Shared

theorem withCurrent_current (s : Shared V M T) (t : Nat) :
    s.withCurrent t (s.store.active.current t) = s := by
  unfold withCurrent
  rw [ActiveSet.setCurrent_current]

theorem withCurrent_withCurrent (s : Shared V M T) (t : Nat) (b b' : Bitset) :
    (s.withCurrent t b).withCurrent t b' = s.withCurrent t b' := by
  unfold withCurrent
  simp only [ActiveSet.setCurrent_setCurrent]

@[simp] theorem current_withCurrent (s : Shared V M T) (t : Nat) (b : Bitset) :
    (s.withCurrent t b).store.active.current t = b := ActiveSet.current_setCurrent ..

theorem outbox_withCurrent (s : Shared V M T) (t : Nat) (b : Bitset) (tally : Tally)
    (lost : Option SendFailure) :
    (s.withCurrent t b).outbox t tally lost = s.outbox t tally lost := by
  unfold outbox withCurrent
  simp only [ActiveSet.next_setCurrent]

theorem putOutbox_withCurrent (s : Shared V M T) (t : Nat) (b : Bitset) (o : Outbox M) :
    (s.withCurrent t b).putOutbox t o = (s.putOutbox t o).withCurrent t b := by
  unfold putOutbox withCurrent
  simp only [ActiveSet.setNext_setCurrent]

theorem sweep_withCurrent (s : Shared V M T) (t : Nat) (b : Bitset) (h : Hand V M) :
    (s.withCurrent t b).sweep t h = s.sweep t h := by
  unfold sweep
  rw [outbox_withCurrent]
  rfl

theorem resume_withCurrent (s : Shared V M T) (t : Nat) (b : Bitset) (x : Sweep V M T)
    (stage : Stage V M) : (s.withCurrent t b).resume t x stage =
      ((s.resume t x stage).1, (s.resume t x stage).2.withCurrent t b) := by
  unfold resume
  rw [putOutbox_withCurrent]
  rfl

theorem resume_withNodes (s : Shared V M T) (t : Nat) (x : Sweep V M T) (stage : Stage V M)
    (nodes : List Nat) : s.resume t x (stage.withNodes nodes) =
      ((s.resume t x stage).1.withNodes nodes, (s.resume t x stage).2) := by
  unfold resume Hand.withNodes
  cases x.failure <;> rfl

end Shared

variable [Message M]

/-- What a worker does that neither looks for its active nodes nor clears them. -/
theorem Worker.actWord_of_blind {x : Scan V M} (hblind : x.hand.stage.Blind) :
    w.actWord job t x s =
      (w.act job t x.hand s).map fun (hand, s) => ({ x with hand, cleared := 0 }, s) := by
  unfold actWord
  cases hstage : x.hand.stage with
  | waiting =>
    rw [hstage] at hblind
    exact hblind.elim
  | between nodes =>
    rw [hstage] at hblind
    exact hblind.elim
  | clearing =>
    rw [hstage] at hblind
    exact hblind.elim
  | _ => rfl

/-- An action of a worker that does not look at the active nodes of the superstep depends neither on
    these nor on the list of the nodes that are still to come. -/
theorem Worker.act_blind (hblind : h.stage.Blind) (nodes : List Nat)
    (hact : w.act job t h (s.withCurrent t b) = some (h', s')) :
    ∃ s₁, w.act job t (h.withNodes nodes) s = some (h'.withNodes nodes, s₁) ∧
      s' = s₁.withCurrent t b ∧ s₁.store.active.current t = s.store.active.current t := by
  have hresume : ∀ (x : Sweep V M T) (stage : Stage V M),
      (s.withCurrent t b).resume t x stage = (h', s') →
      s.resume t x (stage.withNodes nodes) = (h'.withNodes nodes, (s.resume t x stage).2) ∧
        s' = (s.resume t x stage).2.withCurrent t b ∧
        (s.resume t x stage).2.store.active.current t = s.store.active.current t := by
    intro x stage hx
    rw [Shared.resume_withCurrent] at hx
    cases hx
    exact ⟨Shared.resume_withNodes s t x stage nodes, rfl, ActiveSet.current_setNext ..⟩
  obtain ⟨stage, tally, unreported⟩ := h
  unfold Worker.act at hact
  cases stage with
  | waiting => exact hblind.elim
  | between nodes => exact hblind.elim
  | clearing => exact hblind.elim
  | sending i outcome lost rest nodes' =>
    cases rest with
    | cons a rest =>
      simp only [Shared.outbox_withCurrent, Shared.putOutbox_withCurrent] at hact
      cases hact
      exact ⟨_, rfl, rfl, ActiveSet.current_setNext ..⟩
    | nil =>
      simp only [Shared.sweep_withCurrent] at hact
      split at hact
      · next e hfail =>
        cases hact
        refine ⟨s, ?_, rfl, rfl⟩
        unfold Worker.act Hand.withNodes Stage.withNodes
        simp only [hfail]
      · next hfail =>
        obtain ⟨hstep, hs', hcurrent⟩ := hresume _ _ (Option.some.inj hact)
        refine ⟨_, ?_, hs', hcurrent⟩
        unfold Worker.act
        simp only [Hand.withNodes, Stage.withNodes, hfail]
        exact congrArg some hstep
  | counted i nodes' =>
    simp only [Shared.sweep_withCurrent] at hact
    obtain ⟨hstep, hs', hcurrent⟩ := hresume _ _ (Option.some.inj hact)
    exact ⟨_, congrArg some hstep, hs', hcurrent⟩
  | reporting =>
    simp only [Shared.sweep_withCurrent] at hact
    obtain ⟨hstep, hs', hcurrent⟩ := hresume _ _ (Option.some.inj hact)
    exact ⟨_, congrArg some hstep, hs', hcurrent⟩
  | failing e =>
    cases hact
    exact ⟨_, rfl, rfl, rfl⟩
  | recording e =>
    cases hact
    exact ⟨_, rfl, rfl, rfl⟩
  | done failed => cases hact

end

end Superstep
