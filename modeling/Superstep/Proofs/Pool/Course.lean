import Superstep.Proofs.Crew.InOrder
import Superstep.Proofs.Pool.Basic

/-!
# What the driver has behind it

Between two supersteps the driver is what the supersteps so far have made of it, each carried out by
some interleaving of the actions of its workers (`Driver.Heads`). So is the driver in a superstep
(`Driver.Begun`), and when it ends (`Driver.Ends`).

Result: `Driver.Ends.exists_schedule`, if the flag does not panic, the driver ends as `Driver.drive`
says, with the supersteps carried out by some schedule.
-/

namespace Superstep

/-- What a superstep returns. -/
def Round.outcome {V M T : Type} (round : Round V M T) : Except RunError Tally :=
  match round.failure with
  | some e => .error e
  | none => .ok round.tally

theorem Round.outcome_eq_ok_iff {V M T : Type} {round : Round V M T} {tally : Tally} :
    round.outcome = .ok tally ↔ round.failure = none ∧ round.tally = tally := by
  unfold outcome
  cases round.failure <;> simp

theorem Round.outcome_eq_error_iff {V M T : Type} {round : Round V M T} {e : RunError} :
    round.outcome = .error e ↔ round.failure = some e := by
  unfold outcome
  cases round.failure <;> simp

namespace Driver

variable {W V M T : Type}

theorem report_eq (job : Job W V M T) (d : Driver V M T) (r : Report) : d.report job r =
    ({ d with tracker := (job.tracker.take r d.tracker).1 }, (job.tracker.take r d.tracker).2) :=
  rfl

/-- A superstep is its beginning, the turn of the workers, and its end. -/
theorem superstep_eq (job : Job W V M T) (play : Nat → NodeStore V M → T → Round V M T)
    (d : Driver V M T) : d.superstep job play =
      match d.beginSuperstep job with
      | (d', some payload) => (d', some (.unwound payload))
      | (d', none) =>
        let round := play d.supersteps.size d'.store d'.tracker
        (d'.withStore round.store round.tracker).endSuperstep job round.outcome := by
  unfold superstep beginSuperstep endSuperstep withStore Round.outcome
  simp only [report_eq, enter]
  cases (job.tracker.take (.beginSubTask d.activeNodes) d.tracker).2 with
  | some payload => rfl
  | none =>
    simp only
    generalize play d.supersteps.size d.store
      (job.tracker.take (.beginSubTask d.activeNodes) d.tracker).1 = round
    cases (job.tracker.take .endSubTask round.tracker).2 with
    | some payload => rfl
    | none => cases round.failure <;> rfl

/-- The driver goes on with another superstep. -/
structure Goes (plan : Plan W V M T) (d : Driver V M T) : Prop where
  active : d.activeNodes ≠ 0
  below : d.supersteps.size < plan.limit
  poll : plan.poll d.polls = .ok false

/-- The driver after a poll of the flag. -/
def polled (d : Driver V M T) : Driver V M T := { d with polls := d.polls + 1 }

variable [Message M]

/-- The superstep that the driver `d` has begun is over, and has left `round`. -/
def Carries (plan : Plan W V M T) (d : Driver V M T) (round : Round V M T) : Prop :=
  Interleaving plan.job d.supersteps.size plan.workers d.store d.tracker round

/-- What has become of a driver when it is at the head of its loop. -/
inductive Heads (plan : Plan W V M T) (d : Driver V M T) : Driver V M T → Prop
  | start : Heads plan d d
  | superstep {d₁ d₂ d₃ : Driver V M T} {round : Round V M T} :
    Heads plan d d₁ → d₁.Goes plan → d₁.polled.beginSuperstep plan.job = (d₂, none) →
      d₂.Carries plan round →
      (d₂.withStore round.store round.tracker).endSuperstep plan.job round.outcome = (d₃, none) →
      Heads plan d d₃

/-- What has become of a driver when it has begun another superstep. -/
def Begun (plan : Plan W V M T) (d d₂ : Driver V M T) : Prop :=
  ∃ d₁, Heads plan d d₁ ∧ d₁.Goes plan ∧ d₁.polled.beginSuperstep plan.job = (d₂, none)

/-- What becomes of a driver in the end. -/
inductive Ends (plan : Plan W V M T) (d : Driver V M T) : Driver V M T → DriverEnding → Prop
  | converged {d₁ : Driver V M T} : Heads plan d d₁ → d₁.activeNodes = 0 →
      Ends plan d d₁ (.finished .converged)
  | stopped {d₁ : Driver V M T} : Heads plan d d₁ → d₁.activeNodes ≠ 0 →
      plan.limit ≤ d₁.supersteps.size → Ends plan d d₁ (.finished .maxIterationsReached)
  | cancelled {d₁ : Driver V M T} : Heads plan d d₁ → d₁.activeNodes ≠ 0 →
      d₁.supersteps.size < plan.limit → plan.poll d₁.polls = .ok true →
      Ends plan d d₁.polled (.finished .cancelled)
  | flagPanicked {d₁ : Driver V M T} {payload : PanicPayload} : Heads plan d d₁ →
      d₁.activeNodes ≠ 0 → d₁.supersteps.size < plan.limit →
      plan.poll d₁.polls = .error payload → Ends plan d d₁.polled (.unwound payload)
  | beginPanicked {d₁ d₂ : Driver V M T} {payload : PanicPayload} : Heads plan d d₁ →
      d₁.Goes plan → d₁.polled.beginSuperstep plan.job = (d₂, some payload) →
      Ends plan d d₂ (.unwound payload)
  | superstep {d₂ d₃ : Driver V M T} {round : Round V M T} {result : DriverEnding} :
    Begun plan d d₂ → d₂.Carries plan round →
      (d₂.withStore round.store round.tracker).endSuperstep plan.job round.outcome =
        (d₃, some result) → Ends plan d d₃ result

/-! ## Schedules -/

open Classical in
/-- A schedule that carries out one superstep in a given way. -/
noncomputable def override {job : Job W V M T} (schedule : Schedule job) {workers : List Worker}
    {t : Nat} {store : NodeStore V M} {tracker : T} {round : Round V M T}
    (h : Interleaving job t workers store tracker round) : Schedule job where
  play workers' t' store' tracker' :=
    if workers' = workers ∧ t' = t ∧ store' = store ∧ tracker' = tracker then round
    else schedule.play workers' t' store' tracker'
  interleaving workers' t' store' tracker' := by
    split
    · next heq =>
      obtain ⟨rfl, rfl, rfl, rfl⟩ := heq
      exact h
    · exact schedule.interleaving workers' t' store' tracker'

section Schedules

variable {job : Job W V M T} {schedule : Schedule job} {workers : List Worker} {t : Nat}
  {store : NodeStore V M} {tracker : T} {round : Round V M T}
  (h : Interleaving job t workers store tracker round)

theorem override_self : (override schedule h).play workers t store tracker = round :=
  if_pos ⟨rfl, rfl, rfl, rfl⟩

theorem override_of_ne {t' : Nat} (ht : t' ≠ t) (workers' : List Worker) :
    (override schedule h).play workers' t' = schedule.play workers' t' := by
  funext store' tracker'
  exact if_neg fun heq => ht heq.2.1

end Schedules

variable {plan : Plan W V M T} {flag : TerminationFlag} {d d₁ d₂ d₃ : Driver V M T}

omit [Message M] in
theorem size_of_begin {panic : Option PanicPayload}
    (h : d₁.beginSuperstep plan.job = (d₂, panic)) : d₂.supersteps = d₁.supersteps := by
  cases h
  rfl

omit [Message M] in
theorem size_of_end {outcome : Except RunError Tally}
    (h : d₂.endSuperstep plan.job outcome = (d₃, none)) :
    d₃.supersteps.size = d₂.supersteps.size + 1 := by
  unfold endSuperstep at h
  split at h
  · cases h
  · next d' hreport =>
    split at h
    · cases h
    · cases h
      have hsame : d'.supersteps = d₂.supersteps :=
        (congrArg (fun p => p.1.supersteps) hreport).symm
      simp [hsame]

omit [Message M] in
/-- The loop of a driver that goes on with another superstep. -/
theorem drive_of_goes (hflag : ∀ k, plan.poll k = .ok (flag.isCancelled k)) (h : d₁.Goes plan)
    (play : Nat → NodeStore V M → T → Round V M T) :
    d₁.drive plan.job play flag (plan.limit - d₁.supersteps.size) =
      match d₁.polled.superstep plan.job play with
      | (d₂, some result) => (d₂, result)
      | (d₂, none) =>
        d₂.drive plan.job play flag (plan.limit - (d₁.supersteps.size + 1)) := by
  have hbelow := h.below
  obtain ⟨n, hn⟩ : ∃ n, plan.limit - d₁.supersteps.size = n + 1 :=
    ⟨plan.limit - d₁.supersteps.size - 1, by omega⟩
  have hnot : flag.isCancelled d₁.polls = false := by
    have := h.poll
    rw [hflag] at this
    exact Except.ok.inj this
  rw [hn, show plan.limit - (d₁.supersteps.size + 1) = n by omega]
  conv_lhs => unfold drive
  rw [if_neg h.active]
  simp only [hnot, Bool.false_eq_true, if_false]
  rfl

/-- The supersteps that a driver has behind it can be taken into any schedule. -/
theorem Heads.exists_schedule (hflag : ∀ k, plan.poll k = .ok (flag.isCancelled k))
    (h : Heads plan d d₁) (schedule : Schedule plan.job) : ∃ schedule' : Schedule plan.job,
      (∀ t ≥ d₁.supersteps.size, schedule'.play plan.workers t = schedule.play plan.workers t) ∧
      d.drive plan.job (schedule'.play plan.workers) flag (plan.limit - d.supersteps.size) =
        d₁.drive plan.job (schedule'.play plan.workers) flag
          (plan.limit - d₁.supersteps.size) := by
  induction h generalizing schedule with
  | start => exact ⟨schedule, fun _ _ => rfl, rfl⟩
  | @superstep d₁ d₂ d₃ round _ hgoes hbegin hround hend ih =>
    have hsize₂ : d₂.supersteps.size = d₁.supersteps.size := by rw [size_of_begin hbegin]; rfl
    have hsize₃ : d₃.supersteps.size = d₁.supersteps.size + 1 := by
      rw [size_of_end hend]
      exact congrArg (· + 1) hsize₂
    obtain ⟨schedule', hlater, hdrive⟩ := ih (override schedule hround)
    have hplay : schedule'.play plan.workers d₁.supersteps.size d₂.store d₂.tracker = round := by
      rw [hlater _ le_rfl, ← hsize₂]
      exact override_self hround
    refine ⟨schedule', fun t ht => ?_, ?_⟩
    · rw [hlater t (by omega)]
      exact override_of_ne hround (by omega) plan.workers
    · rw [hdrive, drive_of_goes hflag hgoes, superstep_eq, hbegin]
      have hplay' : schedule'.play plan.workers d₁.polled.supersteps.size d₂.store d₂.tracker =
          round := hplay
      simp only [hplay', hend, hsize₃]

/-- If the flag does not panic, the driver ends as its loop says, with the supersteps carried out by
    some schedule. -/
theorem Ends.exists_schedule (hflag : ∀ k, plan.poll k = .ok (flag.isCancelled k))
    {result : DriverEnding} (h : Ends plan d d₁ result) : ∃ schedule : Schedule plan.job,
      d.drive plan.job (schedule.play plan.workers) flag (plan.limit - d.supersteps.size) =
        (d₁, result) := by
  cases h with
  | converged hheads hzero =>
    obtain ⟨schedule, -, hdrive⟩ := hheads.exists_schedule hflag (.inOrder plan.job)
    refine ⟨schedule, hdrive.trans ?_⟩
    unfold drive
    rw [if_pos hzero]
  | stopped hheads hactive hlimit =>
    obtain ⟨schedule, -, hdrive⟩ := hheads.exists_schedule hflag (.inOrder plan.job)
    refine ⟨schedule, hdrive.trans ?_⟩
    rw [Nat.sub_eq_zero_of_le hlimit]
    unfold drive
    rw [if_neg hactive]
  | @cancelled d₁ hheads hactive hbelow hpoll =>
    obtain ⟨schedule, -, hdrive⟩ := hheads.exists_schedule hflag (.inOrder plan.job)
    refine ⟨schedule, hdrive.trans ?_⟩
    have hcancelled : flag.isCancelled d₁.polls = true := by
      rw [hflag] at hpoll
      exact Except.ok.inj hpoll
    obtain ⟨n, hn⟩ : ∃ n, plan.limit - d₁.supersteps.size = n + 1 :=
      ⟨plan.limit - d₁.supersteps.size - 1, by omega⟩
    rw [hn]
    unfold drive
    rw [if_neg hactive]
    simp only [hcancelled, if_true]
    rfl
  | flagPanicked hheads hactive hbelow hpoll =>
    rw [hflag] at hpoll
    cases hpoll
  | beginPanicked hheads hgoes hbegin =>
    obtain ⟨schedule, -, hdrive⟩ := hheads.exists_schedule hflag (.inOrder plan.job)
    refine ⟨schedule, hdrive.trans ?_⟩
    rw [drive_of_goes hflag hgoes, superstep_eq, hbegin]
  | @superstep d₂ d₃ round result hbegun hround hend =>
    obtain ⟨d₀, hheads, hgoes, hbegin⟩ := hbegun
    have hsize : d₂.supersteps.size = d₀.supersteps.size := by rw [size_of_begin hbegin]; rfl
    obtain ⟨schedule, hlater, hdrive⟩ :=
      hheads.exists_schedule hflag (override (.inOrder plan.job) hround)
    have hplay : schedule.play plan.workers d₀.polled.supersteps.size d₂.store d₂.tracker =
        round := by
      show schedule.play plan.workers d₀.supersteps.size d₂.store d₂.tracker = round
      rw [hlater _ le_rfl, ← hsize]
      exact override_self hround
    refine ⟨schedule, hdrive.trans ?_⟩
    rw [drive_of_goes hflag hgoes, superstep_eq, hbegin]
    simp only [hplay, hend]

end Driver

end Superstep
