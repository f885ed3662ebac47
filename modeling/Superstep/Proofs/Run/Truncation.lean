import Superstep.Proofs.Run.Failures
import Superstep.Proofs.Run.Stopping

/-!
# Limits and cancellation only truncate a run

The largest number of supersteps and the termination flag decide where a run stops and nothing else.
Two runs that differ in them go through the same frames as long as both go on, so that the one that
stops first has what the other one has at that point.

Results:
* `Run.Relimits.alike`: the frames of two such runs are alike, and their counts are the same.
* `Run.Relimits.exists_finished`: the run that stops first has a result if the other one has.
* `Run.Relimits.truncates`: its result is a truncation of that of the other run.
* `limits_truncate`: a smaller number of supersteps truncates a run, and cancelling it at a poll
  comes to the same.
-/

namespace Superstep

/-- A tracker that never panics. -/
def Tracker.Quiet {T : Type} (tracker : Tracker T) : Prop :=
  ∀ report state, (tracker.take report state).2 = none

/-- A flag that is raised at poll `k`, and not before. -/
structure TerminationFlag.FirstRaised (flag : TerminationFlag) (k : Nat) : Prop where
  before : ∀ j < k, flag.isCancelled j = false
  raised : flag.isCancelled k = true

/-- Two results with the same values of the first `n` nodes and the same counts. -/
structure RunResult.Same {V : Type} (n : Nat) (a b : RunResult V) : Prop where
  values : ∀ i < n, b.values.get? i = a.values.get? i
  supersteps : b.supersteps = a.supersteps

variable {W V M T T' : Type} [Message M]

namespace Run

/-- Two runs that differ in nothing but their largest numbers of supersteps and their numbers of
    workers. -/
structure Relimits (r r' : Run W V M) : Prop where
  graph : r'.graph = r.graph
  computation : r'.computation = r.computation
  config : r'.config = { r.config with
    maxIterations := r'.config.maxIterations
    concurrency := r'.config.concurrency }

/-- What two runs do while no step fails does not depend on their schedules: because both have one
    worker, or because the order of messages does not matter. -/
def Settled (r r' : Run W V M) : Prop :=
  (r.config.concurrency = 1 ∧ r'.config.concurrency = 1) ∨ r.reduction.OrderFree ∨
    (r.reduction.isCombining = false ∧ r.computation.OrderBlind)

/-- Neither does it depend on their schedules whether a step fails. -/
def Predictable (r r' : Run W V M) : Prop :=
  (r.config.concurrency = 1 ∧ r'.config.concurrency = 1) ∨ r.reduction.OrderFree ∨
    (r.reduction.isCombining = false ∧ r.computation.Symmetric)

theorem Predictable.settled {r r' : Run W V M} (h : r.Predictable r') : r.Settled r' :=
  h.imp_right fun horder => horder.imp_right fun h => ⟨h.1, h.2.orderBlind⟩

/-! ## Results and memory -/

section

variable {r : Run W V M} {tracker : Tracker T} {schedule : Schedule (r.job tracker)} {state : T}
  {flag : TerminationFlag} {k : Nat} {d : Driver V M T}

theorem exists_after_of_le [Memory.Allocator] (h : r.after schedule state flag k = some d) {j : Nat}
    (hj : j ≤ k) :
    ∃ d', r.after schedule state flag j = some d' := by
  induction hj generalizing d with
  | refl => exact ⟨d, h⟩
  | @step k _ ih =>
    obtain ⟨d₀, workers, hprepare⟩ := exists_prepare_of_after h
    rw [after_of_prepare hprepare, proceed_succ, ← after_of_prepare hprepare] at h
    obtain ⟨d', hd', -⟩ := Option.bind_eq_some_iff.1 h
    exact ih hd'

/-- What is stored before a superstep of a run is what the frames of its course hold. -/
theorem Standing.exists_course [Memory.Allocator] {values : PagedArray V} {active : Finset Nat}
    (h : Standing schedule state flag k values active) :
    ∃ f stats, r.Course flag k f stats ∧ f.active = active ∧
      ∀ i < r.nodeCount, values.get? i = some (f.value i) := by
  cases h with
  | start hvalues => exact ⟨r.initialFrame, [], .start, rfl, (r.initialValues_spec hvalues).2.2⟩
  | stored hafter hactive =>
    obtain ⟨f, hat⟩ := Run.exists_course hafter
    refine ⟨f, _, hat.course, ?_, hat.store.value_eq⟩
    ext i
    rw [← hactive, hat.store.has_current]

theorem Standing.exists_of_le [Memory.Allocator] {values : PagedArray V} {active : Finset Nat}
    (h : Standing schedule state flag k values active) {j : Nat} (hj : j ≤ k) :
    ∃ values active, Standing schedule state flag j values active := by
  cases h with
  | start hvalues =>
    obtain rfl := Nat.le_zero.1 hj
    exact ⟨_, _, .start hvalues⟩
  | stored hafter _ =>
    obtain ⟨d', hd'⟩ := exists_after_of_le hafter hj
    obtain ⟨f, hat⟩ := Run.exists_course hd'
    exact ⟨_, _, .stored hd' hat.store.has_current⟩

/-- A run with a result fits in memory, or it has had no active nodes. -/
theorem fits_or_idle [Memory.Allocator] {result : RunResult V}
    (h : (Run.under schedule state flag).ending = .finished result) :
    r.Fits ∨ ∃ values active, r.initialValues = .ok values ∧ r.initialActive = .ok active ∧
      (active.current 0).count = 0 := by
  unfold under performBy at h
  cases hprepare : r.prepare tracker state with
  | ok start => exact .inl (r.fits_of_prepare hprepare)
  | error report =>
    simp only [hprepare] at h
    have hprepared := r.prepared_prepare tracker state
    rw [hprepare] at hprepared
    cases hprepared with
    | unwound _ _ hunwound => cases hunwound.symm.trans h
    | failed _ _ hfailed => cases hfailed.symm.trans h
    | converged _ hvalues hactive hzero _ => exact .inr ⟨_, _, hvalues, hactive, hzero⟩

/-- A run without active nodes has a result, if the tracker does not panic. -/
theorem exists_finished_of_idle [Memory.Allocator] (htracker : tracker.Quiet)
    {values : PagedArray V} {active : ActiveSet} (hvalues : r.initialValues = .ok values)
    (hactive : r.initialActive = .ok active) (hzero : (active.current 0).count = 0)
    (schedule : Schedule (r.job tracker)) (state : T) (flag : TerminationFlag) :
    ∃ result, (Run.under schedule state flag).ending = .finished result := by
  unfold under performBy prepare
  cases htake : tracker.take .beginTask state with
  | mk state' panic =>
    obtain rfl : panic = none := by rw [← htracker .beginTask state, htake]
    simp only [hvalues, hactive, hzero, if_true]
    exact ⟨_, rfl⟩

end

/-! ## The counts up to a superstep -/

theorem Course.take {r : Run W V M} {flag : TerminationFlag} {k : Nat} {f : Frame V M}
    {stats : List SuperstepStats} (h : r.Course flag k f stats) {j : Nat} (hj : j ≤ k) :
    ∃ f', r.Course flag j f' (stats.take j) := by
  induction h with
  | start =>
    obtain rfl := Nat.le_zero.1 hj
    exact ⟨_, .start⟩
  | @superstep k f stats arrived hcourse hgoing hflawless hperm hone ih =>
    have hlength := hcourse.length_eq
    rcases Nat.lt_or_eq_of_le hj with hlt | rfl
    · rw [List.take_append_of_le_length (by omega)]
      exact ih (by omega)
    · rw [List.take_of_length_le (by simp [hlength])]
      exact ⟨_, .superstep hcourse hgoing hflawless hperm hone⟩

/-! ## Two runs with different limits -/

namespace Relimits

variable {r r' : Run W V M} {tracker : Tracker T} {tracker' : Tracker T'}
  {schedule : Schedule (r.job tracker)} {schedule' : Schedule (r'.job tracker')} {state : T}
  {state' : T'} {flag flag' : TerminationFlag} {k : Nat} {f f' : Frame V M}
  {stats stats' : List SuperstepStats} {result result' : RunResult V}

theorem refl (r : Run W V M) : r.Relimits r := ⟨rfl, rfl, rfl⟩

theorem symm (h : r.Relimits r') : r'.Relimits r := by
  refine ⟨h.graph.symm, h.computation.symm, ?_⟩
  rw [h.config]

theorem nodeCount_eq (h : r.Relimits r') : r'.nodeCount = r.nodeCount := by
  unfold Run.nodeCount
  rw [h.graph]

theorem program_eq (h : r.Relimits r') :
    r'.program = r.program ∧ r'.initialFrame = r.initialFrame :=
  Run.program_eq h.graph h.computation (by rw [h.config]) (by rw [h.config])

theorem settled_symm (h : r.Relimits r') (hsettled : r.Settled r') : r'.Settled r := by
  have hreduction : r'.reduction = r.reduction := congrArg Program.reduction h.program_eq.1
  unfold Settled at hsettled ⊢
  rw [hreduction, h.computation]
  exact hsettled.imp_left And.symm

theorem predictable_symm (h : r.Relimits r') (hpredictable : r.Predictable r') :
    r'.Predictable r := by
  have hreduction : r'.reduction = r.reduction := congrArg Program.reduction h.program_eq.1
  unfold Predictable at hpredictable ⊢
  rw [hreduction, h.computation]
  exact hpredictable.imp_left And.symm

theorem storage_eq [Memory.Allocator] (h : r.Relimits r') :
    r'.initialValues = r.initialValues ∧ r'.initialActive = r.initialActive ∧
      r'.initialMail = r.initialMail := by
  have hactive : r'.config.initialActive = r.config.initialActive := by rw [h.config]
  unfold initialValues Run.initialActive initialMail
  rw [h.nodeCount_eq, h.graph, h.computation, hactive]
  exact ⟨rfl, rfl, rfl⟩

theorem fits [Memory.Allocator] (h : r.Relimits r') (hfits : r'.Fits) : r.Fits := by
  obtain ⟨hvalues, hactive, hmail⟩ := h.storage_eq
  exact ⟨hvalues ▸ hfits.values, hactive ▸ hfits.active, hmail ▸ hfits.mail⟩

theorem alike (h : r.Relimits r') (hsettled : r.Settled r') (hcourse : r.Course flag k f stats)
    (hcourse' : r'.Course flag' k f' stats') : f.Alike f' ∧ stats' = stats := by
  obtain ⟨hprogram, hinitial⟩ := h.program_eq
  rcases hsettled with ⟨hone, hone'⟩ | horder
  · obtain ⟨rfl, rfl⟩ := hcourse.eq_frame hone
    obtain ⟨rfl, rfl⟩ := hcourse'.eq_frame hone'
    rw [hprogram, hinitial]
    exact ⟨.refl _, rfl⟩
  · exact hcourse.alike hprogram hinitial horder hcourse'

theorem flawless_iff (h : r.Relimits r') (hpredictable : r.Predictable r')
    (hcourse : r.Course flag k f stats) (hcourse' : r'.Course flag' k f' stats') :
    r'.program.Flawless f' k ↔ r.program.Flawless f k := by
  obtain ⟨hprogram, hinitial⟩ := h.program_eq
  have halike := (h.alike hpredictable.settled hcourse hcourse').1
  rw [hprogram]
  rcases hpredictable with ⟨hone, hone'⟩ | horder
  · obtain ⟨rfl, -⟩ := hcourse.eq_frame hone
    obtain ⟨rfl, -⟩ := hcourse'.eq_frame hone'
    rw [hprogram, hinitial]
  · simp only [Program.flawless_iff, halike.active, halike.fails_iff horder hcourse.proper]

/-- When the first run stops no later than the second one, and the second one has a result, the
    first one has a result. -/
theorem exists_finished [Memory.Allocator] (h : r.Relimits r') (hpredictable : r.Predictable r')
    (htracker : tracker.Quiet)
    (h' : (Run.under schedule' state' flag').ending = .finished result')
    (hsooner : ∀ j ≤ result'.ranIterations, ∀ active, r.stop? flag active j = none →
      r'.stop? flag' active j = none)
    (schedule : Schedule (r.job tracker)) (state : T) :
    ∃ result, (Run.under schedule state flag).ending = .finished result := by
  obtain ⟨hvalues, hactive, -⟩ := h.storage_eq
  rcases fits_or_idle h' with hfits | ⟨values, active, hv, ha, hzero⟩
  · obtain ⟨f', hcourse', hstop', -⟩ := finished_spec h'
    refine finishes_of_flawless htracker (h.fits hfits) fun k f stats hcourse hgoing => ?_
    rcases Nat.lt_or_ge k result'.ranIterations with hlt | hge
    · -- The second run has carried out superstep `k`, so that no step of it fails.
      obtain ⟨g', statsg', hg', -, hflawless⟩ := hcourse'.going hlt
      exact (h.flawless_iff hpredictable hcourse hg').1 hflawless
    · -- The second run has stopped before superstep `k`, but the first one has not.
      obtain ⟨g, statsg, hg, hgoingg⟩ := hcourse.going_of_le hgoing hge
      have hnone := hsooner _ le_rfl _ hgoingg
      rw [← (h.alike hpredictable.settled hg hcourse').1.active, hstop'] at hnone
      cases hnone
  · exact exists_finished_of_idle htracker (hvalues ▸ hv) (hactive ▸ ha) hzero schedule state flag

/-- Two results after the same number of supersteps are the same, but for their termination. -/
theorem same [Memory.Allocator] (h : r.Relimits r') (hsettled : r.Settled r')
    (hfinished : (Run.under schedule state flag).ending = .finished result)
    (hfinished' : (Run.under schedule' state' flag').ending = .finished result')
    (hran : result'.ranIterations = result.ranIterations) : result.Same r.nodeCount result' := by
  obtain ⟨f, hcourse, -, hvalues⟩ := finished_spec hfinished
  obtain ⟨f', hcourse', -, hvalues'⟩ := finished_spec hfinished'
  rw [hran] at hcourse'
  obtain ⟨halike, hstats⟩ := h.alike hsettled hcourse hcourse'
  refine ⟨?_, Array.toList_inj.1 hstats⟩
  intro i hi
  rw [hvalues i hi, hvalues' i (h.nodeCount_eq.trans_gt hi), halike.value]

/-- A result that comes no later than that of the second run has the first of its counts, and the
    values that the second run has at that point. -/
theorem truncates [Memory.Allocator] (h : r.Relimits r') (hsettled : r.Settled r')
    (hfinished : (Run.under schedule state flag).ending = .finished result)
    (hfinished' : (Run.under schedule' state' flag').ending = .finished result')
    (hsooner : ∀ j ≤ result'.ranIterations, ∀ active, r.stop? flag active j = none →
      r'.stop? flag' active j = none) :
    result.ranIterations ≤ result'.ranIterations ∧
    result.supersteps.toList = result'.supersteps.toList.take result.ranIterations ∧
    ∃ values active, Standing schedule' state' flag' result.ranIterations values active ∧
      (∀ i < r.nodeCount, result.values.get? i = values.get? i) ∧
      r.stop? flag active.card result.ranIterations = some result.termination ∧
      r'.stop? flag' active.card result.ranIterations =
        if result.ranIterations < result'.ranIterations then none
        else some result'.termination := by
  obtain ⟨f, hcourse, hstop, hvalues⟩ := finished_spec hfinished
  obtain ⟨f', hcourse', hstop', hstanding', -⟩ := finished_standing hfinished'
  have hle : result.ranIterations ≤ result'.ranIterations := by
    by_contra hlt
    obtain ⟨g, statsg, hg, hgoing, -⟩ := hcourse.going (Nat.not_le.1 hlt)
    have hnone := hsooner _ le_rfl _ hgoing
    rw [← (h.alike hsettled hg hcourse').1.active, hstop'] at hnone
    cases hnone
  obtain ⟨values, active, hstanding⟩ := hstanding'.exists_of_le hle
  obtain ⟨g', statsg', hg', rfl, hvalues'⟩ := hstanding.exists_course
  have halike := (h.alike hsettled hcourse hg').1
  refine ⟨hle, ?_, values, g'.active, hstanding, ?_, ?_, ?_⟩
  · obtain ⟨g, hg⟩ := hcourse'.take hle
    exact (h.alike hsettled hcourse hg).2.symm
  · intro i hi
    rw [hvalues i hi, hvalues' i (h.nodeCount_eq.trans_gt hi), halike.value]
  · rw [halike.active]
    exact hstop
  · rw [halike.active]
    split_ifs with hlt
    · obtain ⟨g, statsg, hg, hgoing, -⟩ := hcourse'.going hlt
      rw [← (h.alike hsettled hcourse hg).1.active]
      exact hgoing
    · obtain heq := Nat.le_antisymm hle (Nat.not_lt.1 hlt)
      rw [← heq] at hcourse' hstop'
      rw [← (h.alike hsettled hcourse hcourse').1.active]
      exact hstop'

/-! ### A larger number of supersteps -/

theorem sooner_of_le (hle : r.config.maxIterations ≤ r'.config.maxIterations) {active j : Nat}
    (hgoing : r.stop? flag active j = none) : r'.stop? flag active j = none := by
  obtain ⟨hsome, hlt, hflag⟩ := stop?_eq_none_iff.1 hgoing
  exact stop?_eq_none_iff.2 ⟨hsome, hlt.trans_le hle, hflag⟩

/-- With the same flag a run stops at its own largest number of supersteps, or where the run that is
    allowed more of them stops. -/
theorem ranIterations_eq [Memory.Allocator] (h : r.Relimits r') (hsettled : r.Settled r')
    (hle : r.config.maxIterations ≤ r'.config.maxIterations)
    (hfinished : (Run.under schedule state flag).ending = .finished result)
    (hfinished' : (Run.under schedule' state' flag).ending = .finished result') :
    result.ranIterations = min r.config.maxIterations result'.ranIterations ∧
      (result.termination = .converged →
        result'.ranIterations = result.ranIterations ∧ result'.termination = .converged) := by
  obtain ⟨hran, -, values, active, -, -, hstop, hstop'⟩ :=
    h.truncates hsettled hfinished hfinished' fun _ _ _ => sooner_of_le hle
  obtain ⟨_, hcourse, -⟩ := finished_spec hfinished
  have hlimit := hcourse.le_maxIterations
  rcases Nat.lt_or_eq_of_le hran with hlt | heq
  · rw [if_pos hlt, stop?_eq_none_iff] at hstop'
    obtain ⟨hsome, -, hflag⟩ := hstop'
    have hreached : r.config.maxIterations ≤ result.ranIterations := by
      by_contra hbelow
      rw [stop?_eq_none_iff.2 ⟨hsome, Nat.not_le.1 hbelow, hflag⟩] at hstop
      cases hstop
    refine ⟨by omega, fun hconverged => ?_⟩
    rw [hconverged, stop?_eq_converged_iff] at hstop
    exact absurd hstop hsome
  · refine ⟨by omega, fun hconverged => ⟨heq.symm, ?_⟩⟩
    rw [hconverged, stop?_eq_converged_iff] at hstop
    rw [if_neg heq.not_lt, stop?_eq_converged_iff.2 hstop] at hstop'
    exact (Option.some.inj hstop').symm

/-! ### A flag that is raised at a poll -/

theorem sooner_of_poll (hlt : r.config.maxIterations < r'.config.maxIterations)
    (hflag : flag.FirstRaised r.config.maxIterations) {active j : Nat}
    (hgoing : r.stop? .never active j = none) : r'.stop? flag active j = none := by
  obtain ⟨hsome, hj, -⟩ := stop?_eq_none_iff.1 hgoing
  exact stop?_eq_none_iff.2 ⟨hsome, hj.trans hlt, hflag.before j hj⟩

theorem sooner_of_raised (hflag : flag.FirstRaised r.config.maxIterations) {active j : Nat}
    (hj : j ≤ r.config.maxIterations) (hgoing : r'.stop? flag active j = none) :
    r.stop? .never active j = none := by
  obtain ⟨hsome, -, hno⟩ := stop?_eq_none_iff.1 hgoing
  refine stop?_eq_none_iff.2 ⟨hsome, Nat.lt_of_le_of_ne hj ?_, rfl⟩
  rintro rfl
  rw [hflag.raised] at hno
  cases hno

/-- Cancelling a run at a poll comes to the same as allowing it no more supersteps than before this
    poll. -/
theorem cancelled_eq [Memory.Allocator] (h : r.Relimits r') (hsettled : r.Settled r')
    (hlt : r.config.maxIterations < r'.config.maxIterations)
    (hflag : flag.FirstRaised r.config.maxIterations)
    (hfinished : (Run.under schedule state .never).ending = .finished result)
    (hfinished' : (Run.under schedule' state' flag).ending = .finished result') :
    result'.ranIterations = result.ranIterations ∧
      result'.termination = if result.termination = .maxIterationsReached then .cancelled
        else result.termination := by
  obtain ⟨hran, -, values, active, -, -, hstop, hstop'⟩ :=
    h.truncates hsettled hfinished hfinished' fun _ _ _ => sooner_of_poll hlt hflag
  obtain ⟨_, hcourse, -⟩ := finished_spec hfinished
  have hlimit := hcourse.le_maxIterations
  obtain ⟨hran', -⟩ := h.symm.truncates (h.settled_symm hsettled) hfinished' hfinished
    fun j hj _ => sooner_of_raised hflag (hj.trans hlimit)
  refine ⟨by omega, ?_⟩
  rw [if_neg (by omega)] at hstop'
  by_cases hzero : active.card = 0
  · rw [stop?_eq_converged_iff.2 hzero, Option.some_inj] at hstop hstop'
    rw [← hstop, ← hstop']
    rfl
  · have hreached : result.ranIterations = r.config.maxIterations := by
      by_contra hne
      rw [stop?_eq_none_iff.2 ⟨hzero, by omega, rfl⟩] at hstop
      cases hstop
    rw [hreached] at hstop hstop'
    rw [stop?_eq_maxIterationsReached_iff.2 ⟨hzero, le_rfl⟩, Option.some_inj] at hstop
    rw [stop?_eq_cancelled_iff.2 ⟨hzero, hlt, hflag.raised⟩, Option.some_inj] at hstop'
    rw [← hstop, ← hstop']
    rfl

/-! ### A flag that is raised too late -/

theorem sooner_of_late (heq : r.config.maxIterations = r'.config.maxIterations) {active j : Nat}
    (hgoing : r.stop? flag active j = none) : r'.stop? .never active j = none := by
  obtain ⟨hsome, hlt, -⟩ := stop?_eq_none_iff.1 hgoing
  exact stop?_eq_none_iff.2 ⟨hsome, heq ▸ hlt, rfl⟩

/-- A run that converges does so with a flag that has not been raised by then. -/
theorem converged_eq [Memory.Allocator] (h : r.Relimits r') (hsettled : r.Settled r')
    (heq : r.config.maxIterations = r'.config.maxIterations)
    (hfinished : (Run.under schedule state flag).ending = .finished result)
    (hfinished' : (Run.under schedule' state' .never).ending = .finished result')
    (hconverged : result'.termination = .converged)
    (hlate : ∀ j < result'.ranIterations, flag.isCancelled j = false) :
    result'.ranIterations = result.ranIterations ∧ result.termination = .converged := by
  obtain ⟨hran, -, values, active, -, -, hstop, hstop'⟩ :=
    h.truncates hsettled hfinished hfinished' fun _ _ _ => sooner_of_late heq
  rcases Nat.lt_or_eq_of_le hran with hlt | hran
  · rw [if_pos hlt, stop?_eq_none_iff] at hstop'
    rw [stop?_eq_none_iff.2 ⟨hstop'.1, heq ▸ hstop'.2.1, hlate _ hlt⟩] at hstop
    cases hstop
  · rw [if_neg hran.not_lt, hconverged, stop?_eq_converged_iff] at hstop'
    rw [stop?_eq_converged_iff.2 hstop', Option.some_inj] at hstop
    exact ⟨hran.symm, hstop.symm⟩

end Relimits

end Run

/-! ## Limits and polls -/

/-- Two runs under any schedules that differ only in their largest numbers of supersteps, `k` and
    one that is not smaller. They have one worker, or the order of messages does not matter to them.

    With the same flag, if the second run has a result, then so has the first one. Its supersteps
    are the first ones of the second run, `k` of them at most, and it has the values that the second
    run has after as many supersteps; and if it has converged the two results are the same.

    If the flag of the second run is first raised at poll `k`, and the first run is not cancelled,
    then one of them has a result if the other one has. The results are the same, but that the
    second run has been cancelled where the first one has reached its largest number of supersteps.

    If the two largest numbers are the same, and the second run converges within `j` supersteps
    without being cancelled, then the first run does the same with a flag that is not raised before
    poll `j`.

    That there is a result takes a tracker that does not panic, and steps that fail or do not fail
    whatever the order of their messages. -/
theorem limits_truncate [Memory.Allocator] {r r' : Run W V M} (h : r.Relimits r')
    (hle : r.config.maxIterations ≤ r'.config.maxIterations)
    (hsettled : (r.config.concurrency = 1 ∧ r'.config.concurrency = 1) ∨ r.reduction.OrderFree ∨
      (r.reduction.isCombining = false ∧ r.computation.OrderBlind))
    {tracker : Tracker T} {tracker' : Tracker T'} (schedule : Schedule (r.job tracker))
    (schedule' : Schedule (r'.job tracker')) (state : T) (state' : T') :
    (∀ flag result', (Run.under schedule' state' flag).ending = .finished result' →
      (tracker.Quiet → r.Predictable r' →
        ∃ result, (Run.under schedule state flag).ending = .finished result) ∧
      ∀ result, (Run.under schedule state flag).ending = .finished result →
        result.supersteps.toList = result'.supersteps.toList.take
          (min r.config.maxIterations result'.supersteps.size) ∧
        result.ranIterations = min r.config.maxIterations result'.ranIterations ∧
        (∃ values active, Run.Standing schedule' state' flag result.ranIterations values active ∧
          ∀ i < r.nodeCount, result.values.get? i = values.get? i) ∧
        (result.termination = .converged →
          result.Same r.nodeCount result' ∧ result'.termination = .converged)) ∧
    (∀ flag : TerminationFlag, r.config.maxIterations < r'.config.maxIterations →
      flag.FirstRaised r.config.maxIterations →
      (tracker.Quiet → r.Predictable r' →
        (∃ result', (Run.under schedule' state' flag).ending = .finished result') →
          ∃ result, (Run.under schedule state .never).ending = .finished result) ∧
      (tracker'.Quiet → r.Predictable r' →
        (∃ result, (Run.under schedule state .never).ending = .finished result) →
          ∃ result', (Run.under schedule' state' flag).ending = .finished result') ∧
      ∀ result result', (Run.under schedule state .never).ending = .finished result →
        (Run.under schedule' state' flag).ending = .finished result' →
          result.Same r.nodeCount result' ∧
          result'.termination = if result.termination = .maxIterationsReached then .cancelled
            else result.termination) ∧
    ∀ (flag : TerminationFlag) (k : Nat), r.config.maxIterations = r'.config.maxIterations →
      (∀ j < k, flag.isCancelled j = false) →
      ∀ result', (Run.under schedule' state' .never).ending = .finished result' →
        result'.termination = .converged → result'.ranIterations ≤ k →
          (tracker.Quiet → r.Predictable r' →
            ∃ result, (Run.under schedule state flag).ending = .finished result) ∧
          ∀ result, (Run.under schedule state flag).ending = .finished result →
            result.Same r.nodeCount result' ∧ result.termination = .converged := by
  refine ⟨?_, ?_, ?_⟩
  · intro flag result' hfinished'
    refine ⟨fun htracker hpredictable => h.exists_finished hpredictable htracker hfinished'
      (fun _ _ _ => Run.Relimits.sooner_of_le hle) schedule state, ?_⟩
    intro result hfinished
    obtain ⟨hran, hconverged⟩ := h.ranIterations_eq hsettled hle hfinished hfinished'
    obtain ⟨-, htake, values, active, hstanding, hvalues, -⟩ :=
      h.truncates hsettled hfinished hfinished' fun _ _ _ => Run.Relimits.sooner_of_le hle
    refine ⟨?_, hran, ⟨values, active, hstanding, hvalues⟩, ?_⟩
    · rw [htake, hran]
      rfl
    · intro htermination
      obtain ⟨hsame, hsame'⟩ := hconverged htermination
      exact ⟨h.same hsettled hfinished hfinished' hsame, hsame'⟩
  · intro flag hlt hflag
    refine ⟨?_, ?_, ?_⟩
    · rintro htracker hpredictable ⟨result', hfinished'⟩
      exact h.exists_finished hpredictable htracker hfinished'
        (fun _ _ _ => Run.Relimits.sooner_of_poll hlt hflag) schedule state
    · rintro htracker hpredictable ⟨result, hfinished⟩
      obtain ⟨_, hcourse, -⟩ := Run.finished_spec hfinished
      exact h.symm.exists_finished (h.predictable_symm hpredictable) htracker hfinished
        (fun j hj _ => Run.Relimits.sooner_of_raised hflag
          (hj.trans hcourse.le_maxIterations)) schedule' state'
    · intro result result' hfinished hfinished'
      obtain ⟨hran, htermination⟩ :=
        h.cancelled_eq hsettled hlt hflag hfinished hfinished'
      exact ⟨h.same hsettled hfinished hfinished' hran, htermination⟩
  · intro flag k heq hbefore result' hfinished' hconverged hk
    refine ⟨fun htracker hpredictable => h.exists_finished hpredictable htracker hfinished'
      (fun _ _ _ => Run.Relimits.sooner_of_late heq) schedule state, ?_⟩
    intro result hfinished
    obtain ⟨hran, htermination⟩ := h.converged_eq hsettled heq hfinished hfinished' hconverged
      fun j hj => hbefore j (hj.trans_le hk)
    exact ⟨h.same hsettled hfinished hfinished' hran, htermination⟩

/-- A run on two nodes with one worker that is allowed one superstep. -/
def briefRun : Run Unit (Unsigned 64) (Unsigned 64) where
  graph := twoNodes
  config := { Config.default 1 with combiner := .min, maxIterations := 1 }
  computation := Components.computation
  accepted := rfl

/-- It ends like the run with two workers and more supersteps that is cancelled at its second
    poll. -/
theorem limits_truncate_twoNodes :
    briefRun.Relimits (twoNodesRun .min 2 rfl) ∧
      briefRun.config.maxIterations ≤ (twoNodesRun .min 2 rfl).config.maxIterations ∧
      briefRun.reduction.OrderFree ∧
      ∃ result result', (Run.under (.inOrder (briefRun.job Tracker.silent)) () .never).ending =
          .finished result ∧
        (Run.under (.inOrder ((twoNodesRun .min 2 rfl).job Tracker.silent)) ()
          (.raisedFrom 1)).ending = .finished result' ∧
        result.Same 2 result' ∧ result.termination = .maxIterationsReached ∧
        result'.termination = .cancelled := by
  have hlimits : briefRun.Relimits (twoNodesRun .min 2 rfl) := ⟨rfl, rfl, rfl⟩
  have hle : briefRun.config.maxIterations ≤ (twoNodesRun .min 2 rfl).config.maxIterations := by
    decide
  have hfree : briefRun.reduction.OrderFree := Reduction.orderFree_unsigned 64 (.inr (.inl rfl))
  have hfinished : (Run.under (.inOrder (briefRun.job Tracker.silent)) () .never).ending =
      .finished ⟨⟨#[#[.ofNat 0, .ofNat 1]], 2, PagedArray.defaultShift⟩, .maxIterationsReached,
        #[⟨0, 2, 2, 0, 2⟩]⟩ := by
    cbv
  have hraised : (TerminationFlag.raisedFrom 1).FirstRaised briefRun.config.maxIterations :=
    ⟨by decide, rfl⟩
  obtain ⟨-, hcancelled, -⟩ := limits_truncate hlimits hle (.inr (.inl hfree))
    (.inOrder (briefRun.job Tracker.silent))
    (.inOrder ((twoNodesRun .min 2 rfl).job Tracker.silent)) () ()
  obtain ⟨-, hexists, hagree⟩ := hcancelled (.raisedFrom 1) (by decide) hraised
  obtain ⟨result', hfinished'⟩ := hexists (fun _ _ => rfl) (.inr (.inl hfree)) ⟨_, hfinished⟩
  obtain ⟨hsame, htermination⟩ := hagree _ result' hfinished hfinished'
  exact ⟨hlimits, hle, hfree, _, result', hfinished, hfinished', hsame, rfl, htermination⟩

end Superstep
