import Superstep.Proofs.Run.Truncation

/-!
# Runs that go alike

Two runs are twins up to a superstep (`Run.Twins`) if they start with the same storage, stop by the
same limit, and go through frames that are alike until then. What makes them so may be that they run
on graphs which differ in the order of relationships only, or that the order of their messages does
not matter.

Results:
* `Twins.same_after`: the storage and the counts of twins after a superstep.
* `Twins.same_result`: the results of twins.
* `Twins.exists_finished`: if a run has a result, so has a twin of which no step fails sooner.
-/

namespace Superstep

/-- What two drivers have in common after superstep `k`, on graphs with `n` nodes: the values, the
    active nodes, the waiting messages up to their order, and the counts. -/
structure Driver.Same {V M T T' : Type} (n k : Nat) (d : Driver V M T) (d' : Driver V M T') :
    Prop where
  values : ∀ i, d'.store.values.get? i = d.store.values.get? i
  active : ∀ i, (d'.store.active.current k).Has i ↔ (d.store.active.current k).Has i
  waiting : ∀ i < n, ∃ box box', d.store.mail.waiting? k i = some box ∧
    d'.store.mail.waiting? k i = some box' ∧ box.toList.Perm box'.toList
  supersteps : d'.supersteps = d.supersteps

namespace Run

variable {W V M T T' : Type} [Message M]

/-- Two runs that start with the same storage and have the same limit, and whose frames are alike up
    to superstep `n`, with the same counts. -/
structure Twins [Memory.Allocator] (r r' : Run W V M) (flag : TerminationFlag) (n : Nat) :
    Prop where
  nodeCount_eq : r'.nodeCount = r.nodeCount
  limit_eq : r'.config.maxIterations = r.config.maxIterations
  values_eq : r'.initialValues = r.initialValues
  active_eq : r'.initialActive = r.initialActive
  alike : ∀ {k f f' stats stats'}, k ≤ n → r.Course flag k f stats → r'.Course flag k f' stats' →
    f.Alike f' ∧ stats' = stats

namespace Twins

variable [Memory.Allocator] {r r' : Run W V M} {flag : TerminationFlag} {n k : Nat}
    {tracker : Tracker T}
  {tracker' : Tracker T'} {schedule : Schedule (r.job tracker)}
  {schedule' : Schedule (r'.job tracker')} {state : T} {state' : T'} {result result' : RunResult V}

theorem symm (h : Twins r r' flag n) : Twins r' r flag n := by
  refine ⟨h.nodeCount_eq.symm, h.limit_eq.symm, h.values_eq.symm, h.active_eq.symm, ?_⟩
  intro k f f' stats stats' hk hcourse hcourse'
  obtain ⟨halike, hstats⟩ := h.alike hk hcourse' hcourse
  exact ⟨halike.symm, hstats.symm⟩

theorem stop?_eq (h : Twins r r' flag n) (active k : Nat) :
    r'.stop? flag active k = r.stop? flag active k := by
  unfold stop?
  rw [h.limit_eq]

theorem fits (h : Twins r r' flag n) (hfits : r.Fits) : r'.Fits := by
  have hmail : r'.initialMail = r.initialMail := by
    unfold initialMail
    rw [h.nodeCount_eq]
  exact ⟨h.values_eq ▸ hfits.values, h.active_eq ▸ hfits.active, hmail ▸ hfits.mail⟩

/-- Twins have the same storage, but for the order of messages, and the same counts. -/
theorem same_after (h : Twins r r' flag n) (hk : k ≤ n) {d : Driver V M T} {d' : Driver V M T'}
    (hd : r.after schedule state flag k = some d)
    (hd' : r'.after schedule' state' flag k = some d') : d.Same r.nodeCount k d' := by
  obtain ⟨f, hat⟩ := exists_course hd
  obtain ⟨f', hat'⟩ := exists_course hd'
  obtain ⟨halike, hstats⟩ := h.alike hk hat.course hat'.course
  obtain ⟨hvalues, hactive⟩ := hat.store_eq hat' h.nodeCount_eq halike.value halike.active
  refine ⟨hvalues, hactive, ?_, Array.toList_inj.1 hstats⟩
  intro i hi
  exact ⟨_, _, hat.store.inbox_eq i hi, hat'.store.inbox_eq i (h.nodeCount_eq.trans_gt hi),
    halike.inbox i⟩

theorem not_stopped (h : Twins r r' flag n) (hk : k ≤ n) {f f' : Frame V M}
    {stats stats' : List SuperstepStats} (hcourse : r.Course flag k f stats)
    (hcourse' : r'.Course flag k f' stats') {termination : Termination}
    (hgoing : r.stop? flag f.active.card k = none)
    (hstop : r'.stop? flag f'.active.card k = some termination) : False := by
  rw [h.stop?_eq, (h.alike hk hcourse hcourse').1.active, hgoing] at hstop
  cases hstop

theorem not_going (h : Twins r r' flag n) (hk : k ≤ n) {f f' : Frame V M}
    {stats stats' : List SuperstepStats} (hcourse : r.Course flag k f stats)
    (hcourse' : r'.Course flag k f' stats') {termination : Termination}
    (hstop : r.stop? flag f.active.card k = some termination)
    (hgoing : r'.stop? flag f'.active.card k = none) : False := by
  rw [h.stop?_eq, (h.alike hk hcourse hcourse').1.active, hstop] at hgoing
  cases hgoing

/-- Twins have the same result, if they have one. -/
theorem same_result (h : Twins r r' flag n)
    (hfinished : (Run.under schedule state flag).ending = .finished result)
    (hn : result.ranIterations ≤ n)
    (hfinished' : (Run.under schedule' state' flag).ending = .finished result') :
    result.Same r.nodeCount result' ∧ result'.ranIterations = result.ranIterations ∧
      result'.termination = result.termination := by
  obtain ⟨f, hcourse, hstop, hvalues⟩ := finished_spec hfinished
  obtain ⟨f', hcourse', hstop', hvalues'⟩ := finished_spec hfinished'
  have hran : result'.ranIterations = result.ranIterations := by
    rcases Nat.lt_trichotomy result'.ranIterations result.ranIterations with hlt | heq | hlt
    · obtain ⟨g, statsg, hg, hgoing, -⟩ := hcourse.going hlt
      exact (h.not_stopped (by omega) hg hcourse' hgoing hstop').elim
    · exact heq
    · obtain ⟨g, statsg, hg, hgoing, -⟩ := hcourse'.going hlt
      exact (h.not_going hn hcourse hg hstop hgoing).elim
  rw [hran] at hcourse' hstop'
  obtain ⟨halike, hstats⟩ := h.alike hn hcourse hcourse'
  refine ⟨⟨?_, Array.toList_inj.1 hstats⟩, hran, ?_⟩
  · intro i hi
    rw [hvalues i hi, hvalues' i (h.nodeCount_eq.trans_gt hi), halike.value]
  · rw [h.stop?_eq, halike.active, hstop] at hstop'
    exact (Option.some.inj hstop').symm

/-- If a run has a result, so has a twin of it: no step of the twin fails before, and it stops when
    the run does. -/
theorem exists_finished (h : Twins r r' flag n) (htracker : tracker'.Quiet)
    (hfinished : (Run.under schedule state flag).ending = .finished result)
    (hn : result.ranIterations ≤ n)
    (hflawless : ∀ {k f f' stats stats'}, k ≤ n → r.Course flag k f stats →
      r'.Course flag k f' stats' → r.program.Flawless f k → r'.program.Flawless f' k) :
    ∃ result', (Run.under schedule' state' flag).ending = .finished result' := by
  rcases fits_or_idle hfinished with hfits | ⟨values, active, hvalues, hactive, hzero⟩
  · obtain ⟨f, hcourse, hstop, -⟩ := finished_spec hfinished
    refine finishes_of_flawless htracker (h.fits hfits) fun k f' stats' hcourse' hgoing => ?_
    rcases Nat.lt_or_ge k result.ranIterations with hlt | hge
    · obtain ⟨g, statsg, hg, -, hbefore⟩ := hcourse.going hlt
      exact hflawless (by omega) hg hcourse' hbefore
    · -- the twin has not stopped where the run has
      obtain ⟨g, statsg, hg, hgoingg⟩ := hcourse'.going_of_le hgoing hge
      exact (h.not_going hn hcourse hg hstop hgoingg).elim
  · exact exists_finished_of_idle htracker (h.values_eq ▸ hvalues) (h.active_eq ▸ hactive) hzero
      schedule' state' flag

end Twins

end Run

end Superstep
