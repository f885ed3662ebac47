import Superstep.Proofs.Crew.Superstep

/-!
# The start of a run

Results:
* `Run.initialFrame`: the frame in which the machine of a run starts.
* `team_workers`: the workers of a run share its nodes out among themselves.
* `prepared_prepare`: what comes of the preparation of a run.
* `prepare_spec`: a run that gets a driver holds the initial frame. A run that converges without one
  has no active nodes, and one that fails without one does not fit in memory.
-/

namespace Superstep

namespace Run

variable {W V M : Type} [Message M] (r : Run W V M)

/-- The machine of the run. -/
def program : Program W V M := ⟨r.graph, r.computation, r.reduction⟩

/-- The nodes active in superstep 0. -/
def initialNodes : Finset Nat :=
  match r.config.initialActive with
  | .all => Finset.range r.nodeCount
  | .nodes ids => (ids.map NodeId.index).toFinset

/-- The frame before superstep 0. -/
def initialFrame : Frame V M where
  value i := r.computation.init r.graph (.ofIndex i)
  inbox _ := []
  active := r.initialNodes

/-! ## What has been accepted -/

theorem accepted_spec : r.config.check = .ok () ∧
    ∀ ids, r.config.initialActive = .nodes ids → ∀ id ∈ ids, id.index < r.nodeCount := by
  have haccepted := r.accepted
  unfold checkRun at haccepted
  simp only [bind, Except.bind] at haccepted
  cases hcheck : r.config.check with
  | error e =>
    rw [hcheck] at haccepted
    cases haccepted
  | ok u =>
    refine ⟨rfl, ?_⟩
    intro ids hids id hid
    rw [hcheck, hids] at haccepted
    simp only at haccepted
    cases hfind : ids.find? (fun id => id.val ≥ r.graph.nodeCount) with
    | some id =>
      rw [hfind] at haccepted
      cases haccepted
    | none =>
      have hnot := List.find?_eq_none.1 hfind id hid
      rw [decide_eq_true_eq, ge_iff_le, UInt64.le_iff_toNat_le] at hnot
      exact Nat.not_le.1 hnot

theorem initialNodes_lt {i : Nat} (hi : i ∈ r.initialNodes) : i < r.nodeCount := by
  unfold initialNodes at hi
  cases hactive : r.config.initialActive with
  | all =>
    rw [hactive] at hi
    exact Finset.mem_range.1 hi
  | nodes ids =>
    rw [hactive] at hi
    obtain ⟨id, hid, rfl⟩ := List.mem_map.1 (List.mem_toFinset.1 hi)
    exact r.accepted_spec.2 ids hactive id hid

theorem proper_initialFrame : r.initialFrame.Proper r.program :=
  ⟨fun _ hi => r.initialNodes_lt hi, fun _ hne => absurd rfl hne, fun _ _ => Nat.zero_le 1⟩

/-! ## Storage -/

theorem has_foldl_insert {s : Bitset} {n : Nat} (hs : s.Sized n) (ids : List NodeId)
    (hids : ∀ id ∈ ids, id.index < n) :
    (ids.foldl (fun s id => s.insert id.index) s).Sized n ∧
      ∀ i, (ids.foldl (fun s id => s.insert id.index) s).Has i ↔
        i ∈ ids.map NodeId.index ∨ s.Has i := by
  induction ids generalizing s with
  | nil => exact ⟨hs, fun i => by simp⟩
  | cons id ids ih =>
    have hid := hids id (List.mem_cons_self ..)
    obtain ⟨hsized, hhas⟩ := ih (hs.insert hid) fun id hid => hids id (List.mem_cons_of_mem _ hid)
    refine ⟨hsized, ?_⟩
    intro i
    rw [List.foldl_cons, hhas, Bitset.has_insert hs hid, List.map_cons, List.mem_cons]
    tauto

/-- The active nodes of a run that has reserved its sets. -/
theorem initialActive_spec [Memory.Allocator] {active : ActiveSet}
    (h : r.initialActive = .ok active) :
    (active.current 0).Sized r.nodeCount ∧ (active.next 0).Sized r.nodeCount ∧
      (∀ i, (active.current 0).Has i ↔ i ∈ r.initialNodes) ∧ (∀ i, ¬ (active.next 0).Has i) ∧
      r.nodeCount + Bitset.wordBits < wordLimit := by
  rw [initialActive] at h
  cases hset : Bitset.new r.nodeCount with
  | error e =>
    have hnew : ActiveSet.new r.nodeCount = .error e := by
      unfold ActiveSet.new
      rw [hset]
      rfl
    rw [hnew] at h
    cases h
  | ok s =>
    have hnew : ActiveSet.new r.nodeCount = .ok ⟨s, s⟩ := by
      unfold ActiveSet.new
      rw [hset]
      rfl
    obtain ⟨hsized, hempty⟩ := Bitset.new_spec hset
    have hsmall : r.nodeCount + Bitset.wordBits < wordLimit := by
      have hfits := Bitset.size_le_of_new hset
      unfold Bitset.wordCount Bitset.wordBits Memory.wordBytes Memory.addressSpace at hfits
      unfold Bitset.wordBits wordLimit
      omega
    rw [hnew] at h
    simp only at h
    unfold initialNodes
    cases hactive : r.config.initialActive with
    | all =>
      rw [hactive] at h
      cases h
      refine ⟨hsized.fill, hsized, ?_, hempty, hsmall⟩
      intro i
      exact (Bitset.has_fill hsized i).trans Finset.mem_range.symm
    | nodes ids =>
      rw [hactive] at h
      cases h
      obtain ⟨hinserted, hhas⟩ := has_foldl_insert hsized ids (r.accepted_spec.2 ids hactive)
      refine ⟨hinserted, hsized, ?_, hempty, hsmall⟩
      intro i
      rw [List.mem_toFinset]
      exact (hhas i).trans (or_iff_left (hempty i))

/-! ## Workers -/

/-- The partitions of the workers, and what their views cover. -/
theorem workers_spec {values : PagedArray V} (hvalues : values.Shaped r.nodeCount) :
    (r.workers values).map Worker.partition = Partition.divide r.nodeCount r.config.concurrency ∧
      ∀ w ∈ r.workers values, w.view ∈ values.split ((Partition.divide r.nodeCount
          r.config.concurrency).map fun p => (p.start, p.stop)) ∧
        w.view.range = (w.partition.start, w.partition.stop) := by
  have hranges := PagedArray.map_range_split hvalues
    (Partition.tiles_divide r.nodeCount r.config.concurrency).ascending
  unfold workers
  simp only
  generalize Partition.divide r.nodeCount r.config.concurrency = ps at hranges ⊢
  generalize values.split (ps.map fun p => (p.start, p.stop)) = views at hranges ⊢
  have hlength : views.length = ps.length := by
    simpa using congrArg List.length hranges
  refine ⟨?_, ?_⟩
  · rw [List.map_zipWith]
    show List.zipWith (fun p _ => p) ps views = ps
    rw [← List.map_uncurry_zip_eq_zipWith]
    exact List.map_fst_zip (by omega)
  · intro w hw
    obtain ⟨k, hk⟩ := List.getElem?_of_mem hw
    obtain ⟨p, v, hp, hv, rfl⟩ := List.getElem?_zipWith_eq_some.1 hk
    refine ⟨List.mem_of_getElem? hv, ?_⟩
    have hrange := congrArg (·[k]?) hranges
    simp only [List.getElem?_map, hv, hp, Option.map_some, Option.some.injEq] at hrange
    exact hrange

theorem length_workers {values : PagedArray V} (hvalues : values.Shaped r.nodeCount) :
    (r.workers values).length = min (max r.config.concurrency 1) r.nodeCount := by
  rw [← Partition.length_divide, ← (r.workers_spec hvalues).1, List.length_map]

/-- The workers of a run share its nodes out among themselves. -/
theorem team_workers {values : PagedArray V} (hvalues : values.Shaped r.nodeCount)
    (hshift : values.shift = PagedArray.defaultShift)
    (hsmall : r.nodeCount + Bitset.wordBits < wordLimit) : Team r.program (r.workers values) where
  small := hsmall
  tiles := by
    rw [(r.workers_spec hvalues).1]
    exact Partition.tiles_divide _ _
  position?_eq := fun w hw i hi => by
    have htiles := Partition.tiles_divide r.nodeCount r.config.concurrency
    obtain ⟨hview, hrange⟩ := (r.workers_spec hvalues).2 w hw
    have hpartition : w.partition ∈ Partition.divide r.nodeCount r.config.concurrency := by
      rw [← (r.workers_spec hvalues).1]
      exact List.mem_map_of_mem hw
    obtain ⟨hstart, hstop⟩ := Prod.mk.inj hrange
    rw [Partition.mem_nodes, ← hstart, ← hstop] at hi
    have hle := (htiles.le_of_mem hpartition).2.2
    rw [← hstop] at hle
    rw [PagedArray.position?_of_mem_split hvalues htiles.ascending hview hle, if_pos hi, hshift]

/-! ## The driver -/

theorem initialValues_spec [Memory.Allocator] {values : PagedArray V}
    (h : r.initialValues = .ok values) :
    values.Shaped r.nodeCount ∧ values.shift = PagedArray.defaultShift ∧
      ∀ i < r.nodeCount, values.get? i = some (r.initialFrame.value i) := by
  rw [initialValues] at h
  split at h
  · next hnew =>
    cases h
    exact PagedArray.new_spec hnew
  · cases h

theorem initialMail_spec [Memory.Allocator] {mail : Mailboxes M} (h : r.initialMail = .ok mail) :
    mail.Shaped r.nodeCount ∧ ∀ t, ∀ i < r.nodeCount, mail.waiting? t i = some #[] := by
  rw [initialMail] at h
  split at h
  · next hnew =>
    cases h
    exact Mailboxes.new_spec hnew
  · cases h

theorem count_initialActive [Memory.Allocator] {active : ActiveSet}
    (h : r.initialActive = .ok active) :
    (active.current 0).count = r.initialNodes.card := by
  obtain ⟨hsized, -, hhas, -⟩ := r.initialActive_spec h
  rw [Bitset.count_eq_card hsized]
  congr 1
  ext i
  rw [Finset.mem_filter, Finset.mem_range, hhas]
  exact ⟨And.right, fun hi => ⟨r.initialNodes_lt hi, hi⟩⟩

/-- There is room for what the run stores. -/
structure Fits [Memory.Allocator] : Prop where
  values : ∃ values, r.initialValues = .ok values
  active : ∃ active, r.initialActive = .ok active
  mail : ∃ mail, r.initialMail = .ok mail

theorem initialValues_error [Memory.Allocator] {e : RunError} (h : r.initialValues = .error e) :
    (∃ what n, e = .resourceExhausted what n) ∧ ¬ r.Fits := by
  refine ⟨?_, fun hfits => ?_⟩
  · rw [initialValues] at h
    split at h
    · cases h
    · cases h
      exact ⟨_, _, rfl⟩
  · obtain ⟨values, hok⟩ := hfits.values
    rw [h] at hok
    cases hok

theorem initialActive_error [Memory.Allocator] {e : RunError} (h : r.initialActive = .error e) :
    (∃ what n, e = .resourceExhausted what n) ∧ ¬ r.Fits := by
  refine ⟨?_, fun hfits => ?_⟩
  · rw [initialActive] at h
    split at h
    · cases h
      exact ⟨_, _, rfl⟩
    · split at h <;> cases h
  · obtain ⟨active, hok⟩ := hfits.active
    rw [h] at hok
    cases hok

theorem initialMail_error [Memory.Allocator] {e : RunError} (h : r.initialMail = .error e) :
    (∃ what n, e = .resourceExhausted what n) ∧ ¬ r.Fits := by
  refine ⟨?_, fun hfits => ?_⟩
  · rw [initialMail] at h
    split at h
    · cases h
    · cases h
      exact ⟨_, _, rfl⟩
  · obtain ⟨mail, hok⟩ := hfits.mail
    rw [h] at hok
    cases hok

variable {T : Type} {tracker : Tracker T} {state : T}

/-- What comes of the preparation of a run. The tracker has been told that the run begins. -/
inductive Prepared [Memory.Allocator] (r : Run W V M) (tracker : Tracker T) (state : T) :
    Except (RunReport V T) (Driver V M T × List Worker) → Prop
  | unwound {report : RunReport V T} {payload : PanicPayload} :
    report.tracker = (tracker.take .beginTask state).1 →
      (tracker.take .beginTask state).2 = some payload → report.ending = .unwound payload →
        Prepared r tracker state (.error report)
  /-- Something does not fit in memory. -/
  | failed {report : RunReport V T} {e : RunError} :
    report.tracker = (tracker.take .beginTask state).1 →
      ((∃ what n, e = .resourceExhausted what n) ∧ ¬ r.Fits) → report.ending = .failed e →
        Prepared r tracker state (.error report)
  /-- No node is active. -/
  | converged {report : RunReport V T} {values : PagedArray V} {active : ActiveSet} :
    report.tracker = (tracker.take .beginTask state).1 → r.initialValues = .ok values →
      r.initialActive = .ok active → (active.current 0).count = 0 →
        report.ending = .finished ⟨values, .converged, #[]⟩ →
          Prepared r tracker state (.error report)
  | started {values : PagedArray V} {active : ActiveSet} {mail : Mailboxes M}
      {notices : Array Notice} :
    r.initialValues = .ok values → r.initialActive = .ok active → r.initialMail = .ok mail →
      Prepared r tracker state (.ok (⟨⟨values, mail, active⟩, (tracker.take .beginTask state).1,
        .initializing, notices, #[], (active.current 0).count, 0⟩, r.workers values))

theorem prepared_prepare [Memory.Allocator] (r : Run W V M) (tracker : Tracker T) (state : T) :
    r.Prepared tracker state (r.prepare tracker state) := by
  rw [prepare]
  cases htake : tracker.take .beginTask state with
  | mk state' panic =>
    have hstate : state' = (tracker.take .beginTask state).1 := by rw [htake]
    subst hstate
    cases panic with
    | some payload => exact .unwound rfl (congrArg Prod.snd htake) rfl
    | none =>
      cases hvalues : r.initialValues with
      | error e => exact .failed rfl (r.initialValues_error hvalues) rfl
      | ok values =>
        cases hactive : r.initialActive with
        | error e => exact .failed rfl (r.initialActive_error hactive) rfl
        | ok active =>
          by_cases hzero : (active.current 0).count = 0
          · simp only [hzero, if_true]
            exact .converged rfl hvalues hactive hzero rfl
          · simp only [hzero, if_false]
            cases hmail : r.initialMail with
            | error e => exact .failed rfl (r.initialMail_error hmail) rfl
            | ok mail => exact .started hvalues hactive hmail

/-- A run that gets a driver holds the initial frame. -/
theorem prepare_spec [Memory.Allocator] {d : Driver V M T} {workers : List Worker}
    (h : r.prepare tracker state = .ok (d, workers)) :
    Team r.program workers ∧ d.store.Holds r.program 0 r.initialFrame ∧
      workers.length = min (max r.config.concurrency 1) r.nodeCount ∧ d.supersteps = #[] ∧
      d.activeNodes = r.initialNodes.card ∧ d.polls = 0 := by
  have hprepared := r.prepared_prepare tracker state
  rw [h] at hprepared
  cases hprepared with
  | started hvalues hactive hmail =>
    obtain ⟨hshaped, hshift, hvalue⟩ := r.initialValues_spec hvalues
    obtain ⟨hcurrent, hnext, hhas, hempty, hsmall⟩ := r.initialActive_spec hactive
    obtain ⟨hmailShaped, hbox⟩ := r.initialMail_spec hmail
    refine ⟨r.team_workers hshaped hshift hsmall, ?_, r.length_workers hshaped, rfl,
      r.count_initialActive hactive, rfl⟩
    exact {
      values := hshaped
      shift_eq := hshift
      mail := hmailShaped
      current := hcurrent
      next := hnext
      value_eq := hvalue
      inbox_eq := hbox 0
      outbox_eq := hbox 1
      has_current := hhas
      has_next := hempty }

theorem fits_of_prepare [Memory.Allocator] {d : Driver V M T} {workers : List Worker}
    (h : r.prepare tracker state = .ok (d, workers)) : r.Fits := by
  have hprepared := r.prepared_prepare tracker state
  rw [h] at hprepared
  cases hprepared with
  | started hvalues hactive hmail => exact ⟨⟨_, hvalues⟩, ⟨_, hactive⟩, ⟨_, hmail⟩⟩

theorem prepare_tracker [Memory.Allocator] {report : RunReport V T}
    (h : r.prepare tracker state = .error report) :
    report.tracker = (tracker.take .beginTask state).1 := by
  have hprepared := r.prepared_prepare tracker state
  rw [h] at hprepared
  cases hprepared with
  | unwound htracker _ _ => exact htracker
  | failed htracker _ _ => exact htracker
  | converged htracker _ _ _ _ => exact htracker

/-- A run that ends without a driver and has a result has no active nodes. -/
theorem prepare_finished [Memory.Allocator] {report : RunReport V T} {result : RunResult V}
    (h : r.prepare tracker state = .error report) (hending : report.ending = .finished result) :
    r.initialNodes = ∅ ∧ result.termination = .converged ∧ result.supersteps = #[] ∧
      ∀ i < r.nodeCount, result.values.get? i = some (r.initialFrame.value i) := by
  have hprepared := r.prepared_prepare tracker state
  rw [h] at hprepared
  cases hprepared with
  | unwound _ _ hunwound => cases hunwound.symm.trans hending
  | failed _ _ hfailed => cases hfailed.symm.trans hending
  | converged _ hvalues hactive hzero hfinished =>
    cases hfinished.symm.trans hending
    rw [r.count_initialActive hactive, Finset.card_eq_zero] at hzero
    exact ⟨hzero, rfl, rfl, (r.initialValues_spec hvalues).2.2⟩

theorem prepare_failed [Memory.Allocator] {report : RunReport V T} {e : RunError}
    (h : r.prepare tracker state = .error report) (hending : report.ending = .failed e) :
    (∃ what n, e = .resourceExhausted what n) ∧ ¬ r.Fits := by
  have hprepared := r.prepared_prepare tracker state
  rw [h] at hprepared
  cases hprepared with
  | unwound _ _ hunwound => cases hunwound.symm.trans hending
  | failed _ hfull hfailed =>
    cases hfailed.symm.trans hending
    exact hfull
  | converged _ _ _ _ hfinished => cases hfinished.symm.trans hending

/-- A run that is unwound without a driver is so by a panic of the tracker. -/
theorem prepare_unwound [Memory.Allocator] {report : RunReport V T} {payload : PanicPayload}
    (h : r.prepare tracker state = .error report) (hending : report.ending = .unwound payload) :
    (tracker.take .beginTask state).2 = some payload := by
  have hprepared := r.prepared_prepare tracker state
  rw [h] at hprepared
  cases hprepared with
  | unwound _ hpanic hunwound =>
    cases hunwound.symm.trans hending
    exact hpanic
  | failed _ _ hfailed => cases hfailed.symm.trans hending
  | converged _ _ _ _ hfinished => cases hfinished.symm.trans hending

end Run

end Superstep
