import Mathlib.Data.Fintype.Card
import Mathlib.Logic.Function.Basic

/-!
# Two barriers

A barrier holds up those who come to it until all parties have come. It can be used again: it counts
how often it has opened, its generation, and who comes takes the generation along as a ticket and
may pass when the generation is no longer that of the ticket.

Some parties go from one barrier to another one and back again. `Meeting` is the invariant of this:
all parties are on their way to the same barrier, or wait there, or have still to leave the other
one, which has opened for them; and the barrier has counted those who wait there.

Results:
* `Meeting.arrive`: if a party is the last to come, all others wait at the barrier; then it opens,
  and they are all on their way to the other one.
* `Meeting.blocked`, `Meeting.free`: a party is held up just at the barrier at which all come
  together.
* `Meeting.pass`: a party that may pass has been waiting at the other barrier.
* `Meeting.exists_not_waiting`: some party is not held up.
-/

namespace Superstep

/-- A barrier: how many wait at it, and how often it has opened. -/
structure Barrier where
  arrived : Nat
  generation : Nat

namespace Barrier

def new : Barrier := ⟨0, 0⟩

/-- One more party comes. The last of them opens the barrier. -/
def arrive (parties : Nat) (b : Barrier) : Barrier :=
  if b.arrived + 1 < parties then ⟨b.arrived + 1, b.generation⟩ else ⟨0, b.generation + 1⟩

end Barrier

/-- The two barriers of a superstep. -/
inductive Gate where
  | start
  | finish
deriving DecidableEq

namespace Gate

def other : Gate → Gate
  | .start => .finish
  | .finish => .start

@[simp] theorem other_other (gate : Gate) : gate.other.other = gate := by cases gate <;> rfl

theorem other_ne (gate : Gate) : gate.other ≠ gate := by cases gate <;> nofun

end Gate

/-- Where a party stands: on its way to a barrier, or waiting there with its ticket. -/
inductive Station where
  | before (gate : Gate)
  | waiting (gate : Gate) (ticket : Nat)
deriving DecidableEq

section

variable {P : Type} [Fintype P]

/-- All parties come together at one of the barriers. -/
structure Meeting (barriers : Gate → Barrier) (station : P → Station) (gate : Gate) : Prop where
  stands : ∀ p, station p = .before gate ∨
    station p = .waiting gate (barriers gate).generation ∨
    ∃ ticket, ticket ≠ (barriers gate.other).generation ∧ station p = .waiting gate.other ticket
  arrived : (barriers gate).arrived =
    (Finset.univ.filter fun p => station p = .waiting gate (barriers gate).generation).card
  room : (barriers gate).arrived < Fintype.card P
  empty : (barriers gate.other).arrived = 0

namespace Meeting

variable {barriers barriers' : Gate → Barrier} {station station' : P → Station} {gate : Gate}
  {p : P}

theorem start [Nonempty P] (hbarriers : ∀ gate, barriers gate = .new)
    (hstation : ∀ p, station p = .before gate) : Meeting barriers station gate where
  stands p := .inl (hstation p)
  arrived := by
    rw [hbarriers, Finset.filter_false_of_mem fun p _ => by rw [hstation]; nofun]
    rfl
  room := by
    rw [hbarriers]
    exact Fintype.card_pos
  empty := by rw [hbarriers]; rfl

variable (h : Meeting barriers station gate)
include h

theorem stands_of_waiting {gate' : Gate} {ticket : Nat} (hp : station p = .waiting gate' ticket) :
    (gate' = gate ∧ ticket = (barriers gate).generation) ∨
      (gate' = gate.other ∧ ticket ≠ (barriers gate.other).generation) := by
  rcases h.stands p with hstands | hstands | ⟨ticket', hne, hstands⟩
  · rw [hp] at hstands
    cases hstands
  · rw [hp] at hstands
    cases hstands
    exact .inl ⟨rfl, rfl⟩
  · rw [hp] at hstands
    cases hstands
    exact .inr ⟨rfl, hne⟩

theorem blocked {ticket : Nat} (hp : station p = .waiting gate ticket) :
    (barriers gate).generation = ticket := by
  rcases h.stands_of_waiting hp with ⟨-, heq⟩ | ⟨hgate, -⟩
  · exact heq.symm
  · exact absurd hgate.symm (Gate.other_ne gate)

theorem free {ticket : Nat} (hp : station p = .waiting gate.other ticket) :
    (barriers gate.other).generation ≠ ticket := by
  rcases h.stands_of_waiting hp with ⟨hgate, -⟩ | ⟨-, hne⟩
  · exact absurd hgate (Gate.other_ne gate)
  · exact hne.symm

theorem gate_of_before {gate' : Gate} (hp : station p = .before gate') : gate' = gate := by
  rcases h.stands p with hstands | hstands | ⟨ticket, -, hstands⟩
  · rw [hp] at hstands
    cases hstands
    rfl
  · rw [hp] at hstands
    cases hstands
  · rw [hp] at hstands
    cases hstands

theorem exists_not_waiting : ∃ p, station p ≠ .waiting gate (barriers gate).generation := by
  by_contra hall
  push Not at hall
  have harrived := h.arrived
  rw [Finset.filter_true_of_mem fun p _ => hall p, Finset.card_univ] at harrived
  exact absurd harrived h.room.ne

variable (hothers : ∀ q, q ≠ p → station' q = station q)
include hothers

/-- If a party that has been waiting at the other barrier has passed it, all are as before. -/
theorem pass {gate' : Gate} {ticket : Nat} (hp : station p = .waiting gate' ticket)
    (hticket : ticket ≠ (barriers gate').generation) (hp' : station' p = .before gate'.other) :
    gate' = gate.other ∧ Meeting barriers station' gate := by
  obtain rfl : gate' = gate.other := by
    rcases h.stands_of_waiting hp with ⟨rfl, rfl⟩ | ⟨hgate, -⟩
    · exact absurd rfl hticket
    · exact hgate
  rw [Gate.other_other] at hp'
  refine ⟨rfl, ?_, ?_, h.room, h.empty⟩
  · intro q
    by_cases hq : q = p
    · exact .inl (hq ▸ hp')
    · rw [hothers q hq]
      exact h.stands q
  · rw [h.arrived]
    congr 1
    refine Finset.filter_congr fun q _ => ?_
    by_cases hq : q = p
    · subst hq
      rw [hp, hp']
      exact iff_of_false (fun heq => Gate.other_ne gate (Station.waiting.inj heq).1) nofun
    · rw [hothers q hq]

variable (hp : station p = .before gate)
  (hp' : station' p = .waiting gate (barriers gate).generation)
include hp hp'

/-- The parties that wait after one more has come. -/
theorem card_waiting_arrive :
    (Finset.univ.filter fun q => station' q = .waiting gate (barriers gate).generation).card =
      (barriers gate).arrived + 1 := by
  classical
  have hnot : p ∉ Finset.univ.filter fun q =>
      station q = .waiting gate (barriers gate).generation := by
    simp [hp]
  rw [h.arrived, ← Finset.card_insert_of_notMem hnot]
  congr 1
  ext q
  by_cases hq : q = p
  · subst hq
    simp [hp']
  · simp [hothers q hq, hq]

/-- When a party comes to the barrier, either the barrier stays closed, or all other parties have
    been waiting there, and all are on their way to the other one. -/
theorem arrive (hbarriers : barriers' =
      Function.update barriers gate ((barriers gate).arrive (Fintype.card P))) :
    Meeting barriers' station' gate ∨
      (Meeting barriers' station' gate.other ∧
        ∀ q, q ≠ p → station q = .waiting gate (barriers gate).generation) := by
  have hcard := h.card_waiting_arrive hothers hp hp'
  have hother : barriers' gate.other = barriers gate.other := by
    rw [hbarriers, Function.update_of_ne (Gate.other_ne gate)]
  have hgate : barriers' gate = (barriers gate).arrive (Fintype.card P) := by
    rw [hbarriers, Function.update_self]
  by_cases hlast : (barriers gate).arrived + 1 < Fintype.card P
  · left
    rw [Barrier.arrive, if_pos hlast] at hgate
    refine ⟨?_, ?_, ?_, ?_⟩
    · rw [hgate, hother]
      intro q
      by_cases hq : q = p
      · exact .inr (.inl (hq ▸ hp'))
      · rw [hothers q hq]
        exact h.stands q
    · rw [hgate]
      exact hcard.symm
    · rw [hgate]
      exact hlast
    · rw [hother]
      exact h.empty
  · right
    have hall : ∀ q, station' q = .waiting gate (barriers gate).generation := by
      have huniv : (Finset.univ.filter fun q =>
          station' q = .waiting gate (barriers gate).generation) = Finset.univ := by
        refine Finset.eq_univ_of_card _ ?_
        have := h.room
        omega
      intro q
      have hq := Finset.mem_univ q
      rw [← huniv, Finset.mem_filter] at hq
      exact hq.2
    rw [Barrier.arrive, if_neg hlast] at hgate
    refine ⟨⟨?_, ?_, ?_, ?_⟩, fun q hq => (hothers q hq) ▸ hall q⟩
    · rw [hother, Gate.other_other, hgate]
      exact fun q => .inr (.inr ⟨_, (Nat.lt_succ_self _).ne, hall q⟩)
    · rw [hother, h.empty, Finset.filter_false_of_mem]
      · rfl
      · intro q _ heq
        rw [hall q] at heq
        exact Gate.other_ne gate (Station.waiting.inj heq).1.symm
    · rw [hother, h.empty]
      exact Fintype.card_pos_iff.2 ⟨p⟩
    · rw [Gate.other_other, hgate]

end Meeting

end

end Superstep
