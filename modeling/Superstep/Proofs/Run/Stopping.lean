import Mathlib
import Superstep.Proofs.Crew.InOrder
import Superstep.Proofs.Run.Course

/-!
# When and why a run stops

Before each superstep the driver looks at the number of active nodes, at the number of supersteps
and at the termination flag, in this order. Its counts form a chain (`SuperstepStats.Chain`): what
one superstep leaves active is what the next one starts with.

Results:
* `Run.Course.chain`: the counts of a run form a chain that ends in the active nodes of its frame.
* `finished_standing`: a result shows the storage at the barrier at which the run has stopped.
* `result_accounts`: the counts, the termination and the polls of every result.
-/

namespace Superstep

/-! ## Chains of counts -/

namespace SuperstepStats

/-- The counts of supersteps that follow one another, none of them without active nodes: `first`
    nodes are active before the first one, and `last` nodes after the last one. -/
inductive Chain (first : Nat) : List SuperstepStats → Nat → Prop
  | nil : Chain first [] first
  | snoc {stats : List SuperstepStats} {between : Nat} {s : SuperstepStats} :
      Chain first stats between → s.activeNodes = between → 0 < between →
      s.superstep = stats.length → Chain first (stats ++ [s]) s.nextActiveNodes

namespace Chain

variable {first last : Nat} {stats : List SuperstepStats} {s s' : SuperstepStats} {i : Nat}

/-- Supersteps are numbered from zero, and none of them is without active nodes. -/
theorem getElem?_spec (h : Chain first stats last) (hs : stats[i]? = some s) :
    s.superstep = i ∧ 0 < s.activeNodes := by
  induction h with
  | nil => cases hs
  | @snoc stats _ _ _ hactive hpos hnumber ih =>
    rcases Nat.lt_trichotomy i stats.length with hlt | rfl | hgt
    · rw [List.getElem?_append_left hlt] at hs
      exact ih hs
    · rw [List.getElem?_concat_length] at hs
      cases hs
      exact ⟨hnumber, hactive ▸ hpos⟩
    · rw [List.getElem?_eq_none (by simp; omega)] at hs
      cases hs

theorem first_eq (h : Chain first stats last) (hs : stats[0]? = some s) :
    s.activeNodes = first := by
  induction h with
  | nil => cases hs
  | snoc hchain hactive _ _ ih =>
    cases hchain with
    | nil =>
      cases hs
      exact hactive
    | snoc =>
      rw [List.getElem?_append_left (by simp)] at hs
      exact ih hs

theorem last_eq (h : Chain first stats last) (hs : stats.getLast? = some s) :
    s.nextActiveNodes = last := by
  cases h with
  | nil => cases hs
  | snoc =>
    rw [List.getLast?_concat] at hs
    cases hs
    rfl

/-- What one superstep leaves active is what the next one starts with. -/
theorem next_eq (h : Chain first stats last) (hs : stats[i]? = some s)
    (hs' : stats[i + 1]? = some s') : s'.activeNodes = s.nextActiveNodes := by
  induction h with
  | nil => cases hs
  | @snoc stats _ _ hchain hactive _ _ ih =>
    rcases Nat.lt_trichotomy (i + 1) stats.length with hlt | heq | hgt
    · rw [List.getElem?_append_left (by omega)] at hs
      rw [List.getElem?_append_left hlt] at hs'
      exact ih hs hs'
    · rw [List.getElem?_append_left (by omega)] at hs
      rw [heq, List.getElem?_concat_length] at hs'
      cases hs'
      rw [hactive]
      refine (hchain.last_eq ?_).symm
      rw [List.getLast?_eq_getElem?, ← heq, Nat.add_sub_cancel]
      exact hs
    · rw [List.getElem?_eq_none (by simp; omega)] at hs'
      cases hs'

end Chain

end SuperstepStats

namespace Run

variable {W V M T : Type} [Message M] {r : Run W V M} {tracker : Tracker T}
  {schedule : Schedule (r.job tracker)} {state : T} {flag : TerminationFlag} {active k : Nat}

/-! ## The three questions -/

theorem stop?_eq_none_iff : r.stop? flag active k = none ↔
    active ≠ 0 ∧ k < r.config.maxIterations ∧ flag.isCancelled k = false := by
  unfold stop?
  split_ifs <;> simp_all

theorem stop?_eq_converged_iff : r.stop? flag active k = some .converged ↔ active = 0 := by
  unfold stop?
  split_ifs <;> simp_all

theorem stop?_eq_maxIterationsReached_iff :
    r.stop? flag active k = some .maxIterationsReached ↔
      active ≠ 0 ∧ r.config.maxIterations ≤ k := by
  unfold stop?
  split_ifs <;> simp_all

theorem stop?_eq_cancelled_iff : r.stop? flag active k = some .cancelled ↔
    active ≠ 0 ∧ k < r.config.maxIterations ∧ flag.isCancelled k = true := by
  unfold stop?
  split_ifs <;> simp_all

/-! ## The course of a run with a result -/

namespace Course

variable {f : Frame V M} {stats : List SuperstepStats}

theorem chain (h : r.Course flag k f stats) :
    SuperstepStats.Chain r.initialNodes.card stats f.active.card := by
  induction h with
  | start => exact .nil
  | @superstep k f stats arrived hcourse hgoing _ hperm _ ih =>
    have hsome : f.active.card ≠ 0 := (stop?_eq_none_iff.1 hgoing).1
    rw [Program.active_after_perm hperm]
    exact .snoc ih rfl (Nat.pos_of_ne_zero hsome) hcourse.length_eq.symm

theorem le_maxIterations (h : r.Course flag k f stats) : k ≤ r.config.maxIterations := by
  cases h with
  | start => exact Nat.zero_le _
  | superstep _ hgoing _ _ _ => exact (stop?_eq_none_iff.1 hgoing).2.1

theorem isCancelled_eq_false (h : r.Course flag k f stats) {j : Nat} (hj : j < k) :
    flag.isCancelled j = false := by
  obtain ⟨f', stats', -, hgoing, -⟩ := h.going hj
  exact (stop?_eq_none_iff.1 hgoing).2.2

end Course

/-! ## Where the driver stops -/

/-- The driver of a run with a result has stopped before a superstep. If the run is cancelled, it
    has polled the flag once more than it has carried out supersteps. -/
theorem drive_finished {play : Nat → NodeStore V M → T → Round V M T} {remaining : Nat}
    {d d' : Driver V M T} {termination : Termination} (hpolls : d.polls = d.supersteps.size)
    (hremaining : d.supersteps.size + remaining = r.config.maxIterations)
    (h : d.drive (r.job tracker) play flag remaining = (d', .finished termination)) :
    ∃ n d₁, r.proceed tracker play flag n d = some d₁ ∧
      r.stop? flag d₁.activeNodes d₁.supersteps.size = some termination ∧
      d'.store = d₁.store ∧ d'.supersteps = d₁.supersteps ∧
      d'.polls = d₁.supersteps.size + if termination = .cancelled then 1 else 0 := by
  induction remaining generalizing d with
  | zero =>
    unfold Driver.drive at h
    split at h
    · next hzero =>
      cases h
      exact ⟨0, _, rfl, stop?_eq_converged_iff.2 hzero, rfl, rfl, hpolls⟩
    · next hsome =>
      cases h
      exact ⟨0, _, rfl, stop?_eq_maxIterationsReached_iff.2 ⟨hsome, by omega⟩, rfl, rfl, hpolls⟩
  | succ remaining ih =>
    unfold Driver.drive at h
    split at h
    · next hzero =>
      cases h
      exact ⟨0, _, rfl, stop?_eq_converged_iff.2 hzero, rfl, rfl, hpolls⟩
    · next hsome =>
      simp only [hpolls] at h
      split at h
      · next hcancelled =>
        cases h
        exact ⟨0, _, rfl, stop?_eq_cancelled_iff.2 ⟨hsome, by omega, hcancelled⟩, rfl, rfl, rfl⟩
      · next hcancelled =>
        split at h
        · next hsuperstep =>
          obtain ⟨hd, rfl⟩ := Prod.mk.inj h
          rcases Driver.superstep_ended hsuperstep with ⟨_, _, _, _, hending, _⟩ |
            ⟨_, _, hending, _⟩
          · cases hending
          · cases hending
        · next d₁ hsuperstep =>
          obtain ⟨-, -, -, hpolls₁, hpush⟩ := Driver.superstep_spec hsuperstep rfl
          have hsize : d₁.supersteps.size = d.supersteps.size + 1 := by
            rw [hpush, Array.size_push]
          have hgoing : r.stop? flag d.activeNodes d.supersteps.size = none :=
            stop?_eq_none_iff.2 ⟨hsome, by omega, by simpa using hcancelled⟩
          have hadvance : r.advance tracker play flag d = some d₁ :=
            advance_of_superstep hgoing (hpolls.symm ▸ hsuperstep)
          obtain ⟨n, d₂, hproceed, hrest⟩ := ih (hpolls₁.trans hsize.symm) (by omega) h
          refine ⟨n + 1, d₂, ?_, hrest⟩
          rw [proceed, hadvance]
          exact hproceed

theorem prepare_polls [Memory.Allocator] {report : RunReport V T}
    (h : r.prepare tracker state = .error report) :
    report.polls = 0 := by
  unfold prepare at h
  simp only at h
  repeat' split at h
  all_goals cases h
  all_goals rfl

/-- What is stored before superstep `k` of a run: the values and the active nodes that it starts
    with, or those that `k` supersteps have left. -/
inductive Standing [Memory.Allocator] (schedule : Schedule (r.job tracker)) (state : T)
    (flag : TerminationFlag) :
    Nat → PagedArray V → Finset Nat → Prop
  | start {values : PagedArray V} : r.initialValues = .ok values →
      Standing schedule state flag 0 values r.initialNodes
  | stored {k : Nat} {d : Driver V M T} {active : Finset Nat} :
      r.after schedule state flag k = some d →
      (∀ i, (d.store.active.current k).Has i ↔ i ∈ active) →
      Standing schedule state flag k d.store.values active

/-- After every number of supersteps the driver has asked once for each of them whether the run is
    cancelled. -/
theorem after_polls [Memory.Allocator] {d : Driver V M T}
    (h : r.after schedule state flag k = some d) :
    d.polls = k := by
  obtain ⟨f, hat⟩ := exists_course h
  exact hat.polls

/-- A result shows the storage at the barrier at which the run has stopped. The flag has been polled
    once for each superstep, and once more if the run is cancelled. -/
theorem finished_standing [Memory.Allocator] {result : RunResult V}
    (h : (Run.under schedule state flag).ending = .finished result) :
    ∃ f, r.Course flag result.ranIterations f result.supersteps.toList ∧
      r.stop? flag f.active.card result.ranIterations = some result.termination ∧
      Standing schedule state flag result.ranIterations result.values f.active ∧
      (Run.under schedule state flag).polls =
        result.ranIterations + if result.termination = .cancelled then 1 else 0 := by
  unfold under performBy at h ⊢
  cases hprepare : r.prepare tracker state with
  | error report =>
    simp only [hprepare] at h ⊢
    have hprepared := r.prepared_prepare tracker state
    rw [hprepare] at hprepared
    cases hprepared with
    | unwound _ _ hunwound => cases hunwound.symm.trans h
    | failed _ _ hfailed => cases hfailed.symm.trans h
    | converged _ hvalues hactive hzero hfinished =>
      cases hfinished.symm.trans h
      rw [r.count_initialActive hactive] at hzero
      exact ⟨r.initialFrame, .start, stop?_eq_converged_iff.2 hzero, .start hvalues,
        r.prepare_polls hprepare⟩
  | ok start =>
    obtain ⟨d, workers⟩ := start
    simp only [hprepare] at h ⊢
    obtain ⟨hat, hw⟩ := at_start hprepare flag
    cases hdrive : d.drive (r.job tracker) (schedule.play workers) flag r.config.maxIterations with
    | mk d' ending =>
      simp only [hdrive] at h ⊢
      cases ending with
      | failed e => cases h
      | unwound payload => cases h
      | finished termination =>
        cases h
        have hsize := hat.size_eq
        obtain ⟨n, d₁, hproceed, hstop, hstore, hsupersteps, hpolls⟩ :=
          drive_finished (hat.polls.trans hsize.symm) (by omega) hdrive
        have hafter : r.after schedule state flag n = some d₁ :=
          (after_of_prepare hprepare).trans hproceed
        obtain ⟨f, hf⟩ := exists_course hafter
        obtain rfl : d₁.supersteps.size = n := hf.size_eq
        have hran : d'.supersteps.size = d₁.supersteps.size := by rw [hsupersteps]
        refine ⟨f, ?_, ?_, ?_, ?_⟩
        · show r.Course flag d'.supersteps.size f d'.supersteps.toList
          rw [hran, hsupersteps]
          exact hf.course
        · show r.stop? flag f.active.card d'.supersteps.size = some termination
          rw [hran, ← hf.activeNodes]
          exact hstop
        · show Standing schedule state flag d'.supersteps.size d'.store.values f.active
          rw [hran, hstore]
          exact .stored hafter hf.store.has_current
        · show d'.polls = d'.supersteps.size + _
          rw [hran, hpolls]

end Run

/-! ## Results -/

section

variable {W V M T : Type} [Message M]

/-- What the result of a run says about the run, under every schedule. The supersteps are numbered
    from zero and are no more than the largest number of them; the first one has started with the
    initially active nodes, every other one with the nodes that the one before has left active, and
    none without any. With the nodes that are active when the run has stopped: it has converged
    exactly if there are none; it has reached its largest number of supersteps exactly if there are
    some and that many supersteps have been carried out; and it has been cancelled exactly if there
    are some, more supersteps were allowed, and the last answer of the flag was yes. The flag has
    been polled once before each superstep, and once more exactly if the run has been cancelled. -/
theorem result_accounts [Memory.Allocator] {r : Run W V M} {tracker : Tracker T}
    {schedule : Schedule (r.job tracker)}
    {state : T} {flag : TerminationFlag} {result : RunResult V}
    (h : (Run.under schedule state flag).ending = .finished result) :
    result.ranIterations = result.supersteps.size ∧
    result.ranIterations ≤ r.config.maxIterations ∧
    (∀ (i : Nat) s, result.supersteps[i]? = some s → s.superstep = i ∧ 0 < s.activeNodes) ∧
    (∀ s, result.supersteps[0]? = some s → s.activeNodes = r.initialNodes.card) ∧
    (∀ (i : Nat) s s', result.supersteps[i]? = some s → result.supersteps[i + 1]? = some s' →
      s'.activeNodes = s.nextActiveNodes) ∧
    (∃ active, Run.Standing schedule state flag result.ranIterations result.values active ∧
      (result.termination = .converged ↔ active = ∅) ∧
      (result.termination = .maxIterationsReached ↔
        active ≠ ∅ ∧ result.ranIterations = r.config.maxIterations) ∧
      (result.termination = .cancelled ↔
        active ≠ ∅ ∧ result.ranIterations < r.config.maxIterations ∧
          ∃ last, (Run.under schedule state flag).polls = last + 1 ∧
            flag.isCancelled last = true)) ∧
    (result.didConverge = true ↔ result.termination = .converged) ∧
    (∀ k d, r.after schedule state flag k = some d → d.polls = k) ∧
    (∀ j < result.ranIterations, flag.isCancelled j = false) ∧
    (Run.under schedule state flag).polls =
      result.ranIterations + if result.termination = .cancelled then 1 else 0 := by
  obtain ⟨f, hcourse, hstop, hstanding, hpolls⟩ := Run.finished_standing h
  have hchain := hcourse.chain
  have hle := hcourse.le_maxIterations
  have hempty : f.active.card = 0 ↔ f.active = ∅ := Finset.card_eq_zero
  have hget : ∀ (i : Nat) s, result.supersteps[i]? = some s →
      result.supersteps.toList[i]? = some s := by
    intro i s hs
    rwa [Array.getElem?_toList]
  refine ⟨rfl, hle, fun i s hs => hchain.getElem?_spec (hget i s hs),
    fun s hs => hchain.first_eq (hget 0 s hs),
    fun i s s' hs hs' => hchain.next_eq (hget i s hs) (hget (i + 1) s' hs'),
    ⟨f.active, hstanding, ?_, ?_, ?_⟩, decide_eq_true_iff, fun k d => Run.after_polls,
    fun j => hcourse.isCancelled_eq_false, hpolls⟩
  · rw [← hempty, ← Option.some_inj, ← hstop, Run.stop?_eq_converged_iff]
  · rw [Ne, ← hempty, ← Option.some_inj, ← hstop, Run.stop?_eq_maxIterationsReached_iff]
    exact and_congr_right fun _ => ⟨hle.antisymm, Eq.ge⟩
  · rw [Ne, ← hempty, ← Option.some_inj, ← hstop, Run.stop?_eq_cancelled_iff]
    refine and_congr_right fun hsome => and_congr_right fun hlt => ?_
    constructor
    · intro hcancelled
      have htermination : result.termination = .cancelled := by
        rw [← Option.some_inj, ← hstop]
        exact Run.stop?_eq_cancelled_iff.2 ⟨hsome, hlt, hcancelled⟩
      exact ⟨_, by rw [hpolls, if_pos htermination], hcancelled⟩
    · rintro ⟨last, hlast, hcancelled⟩
      by_contra hnot
      -- Without one more poll the last one was that of a superstep.
      have hbefore : last < result.ranIterations := by
        by_cases htermination : result.termination = .cancelled
        · rw [← Option.some_inj, ← hstop, Run.stop?_eq_cancelled_iff] at htermination
          exact absurd htermination.2.2 hnot
        · rw [hpolls, if_neg htermination] at hlast
          omega
      rw [hcourse.isCancelled_eq_false hbefore] at hcancelled
      cases hcancelled

/-- A run on two nodes that is cancelled at its second poll has carried out one superstep. -/
theorem result_accounts_twoNodes :
    ∃ result, (Run.under (.inOrder ((twoNodesRun .min 2 rfl).job Tracker.silent)) ()
        (.raisedFrom 1)).ending = .finished result ∧
      result.termination = .cancelled ∧
      (∀ s, result.supersteps[0]? = some s → s.activeNodes = 2) ∧
      (Run.under (.inOrder ((twoNodesRun .min 2 rfl).job Tracker.silent)) ()
        (.raisedFrom 1)).polls = result.ranIterations + 1 := by
  have h : (Run.under (.inOrder ((twoNodesRun .min 2 rfl).job Tracker.silent)) ()
      (.raisedFrom 1)).ending = .finished ⟨⟨#[#[.ofNat 0, .ofNat 1]], 2, PagedArray.defaultShift⟩,
        .cancelled, #[⟨0, 2, 2, 0, 2⟩]⟩ := by
    cbv
  obtain ⟨-, -, -, hfirst, -, -, -, -, -, hpolls⟩ := result_accounts h
  exact ⟨_, h, rfl, fun s hs => hfirst s hs, hpolls⟩

end

end Superstep
