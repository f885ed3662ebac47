import Superstep.Proofs.Crew.Deliveries
import Superstep.Proofs.Message.Selection
import Superstep.Proofs.Run.Progress
import Superstep.Proofs.Run.Twins

/-!
# Runs whose combiner picks one of the messages

With a selective reduction what reaches a node is one of the messages that have been sent to it in
the superstep before. Which one depends on the order of their arrival, unless all messages for the
same node are equal (`Unanimous`). If they are in every superstep of a run, the run comes to the
same under every schedule and with every number of workers.

A `PostedSchedule` is a schedule that says in which order the messages of every superstep arrive;
`Schedule.exists_posted`, every schedule can be read as one.

Results:
* `Run.posted_spec`: the frames before and after a superstep, with its messages in the order in
  which they have arrived.
* `Run.determined_of_unanimous`: unanimous messages leave no choice to the schedule.
* `picks_sent_messages`: what a run with a selective reduction delivers.
-/

namespace Superstep

/-! ## Messages that agree -/

section

variable {M : Type} {letters letters' : List (NodeId × M)}

/-- Messages for the same node are equal. -/
def Unanimous (letters : List (NodeId × M)) : Prop :=
  ∀ l ∈ letters, ∀ l' ∈ letters, l.1 = l'.1 → l.2 = l'.2

theorem Unanimous.perm (h : Unanimous letters) (hperm : letters.Perm letters') :
    Unanimous letters' := fun l hl l' hl' => h l (hperm.mem_iff.2 hl) l' (hperm.mem_iff.2 hl')

theorem Unanimous.arrivals_eq (h : Unanimous letters) (v : Nat) :
    ∀ a ∈ arrivals letters v, ∀ b ∈ arrivals letters v, a = b := by
  intro a ha b hb
  obtain ⟨l, hl, hv, rfl⟩ := mem_arrivals.1 ha
  obtain ⟨l', hl', hv', rfl⟩ := mem_arrivals.1 hb
  exact h l hl l' hl' (NodeId.index_injective (hv.trans hv'.symm))

end

variable {W V M T : Type} [Message M]

/-- The next frame does not depend on the order in which the messages arrive. -/
def Program.Determined (p : Program W V M) (f : Frame V M) (t : Nat) : Prop :=
  ∀ arrived, arrived.Perm (p.traffic f t) → p.after f t arrived = p.next f t

theorem Program.determined_of_unanimous {p : Program W V M} (hselective : p.reduction.Selective)
    {f : Frame V M} {t : Nat} (h : Unanimous (p.traffic f t)) : p.Determined f t := by
  intro arrived hperm
  apply Program.after_congr
  intro v
  exact hselective.collect_perm (arrivals_perm hperm v) ((h.perm hperm.symm).arrivals_eq v)

/-! ## Schedules -/

/-- A choice of an execution for every superstep, with the order in which the messages arrive. -/
structure PostedSchedule (job : Job W V M T) where
  play : List Worker → Nat → NodeStore V M → T → Round V M T × List (NodeId × M)
  posted : ∀ workers t store tracker, ∃ c,
    Crew.Posts job t workers store tracker c (play workers t store tracker).2 ∧
      c.Finished workers ∧ (play workers t store tracker).1 = c.round workers

/-- A schedule without the messages. -/
def PostedSchedule.schedule {job : Job W V M T} (x : PostedSchedule job) : Schedule job where
  play workers t store tracker := (x.play workers t store tracker).1
  interleaving workers t store tracker := by
    obtain ⟨c, hposts, hfinished, hround⟩ := x.posted workers t store tracker
    exact ⟨c, hposts.steps, hfinished, hround⟩

theorem Schedule.exists_posted {job : Job W V M T} (schedule : Schedule job) :
    ∃ x : PostedSchedule job, x.schedule = schedule := by
  have hletters : ∀ workers t store tracker, ∃ letters c,
      Crew.Posts job t workers store tracker c letters ∧ c.Finished workers ∧
        schedule.play workers t store tracker = c.round workers := by
    intro workers t store tracker
    obtain ⟨c, hsteps, hfinished, hround⟩ := schedule.interleaving workers t store tracker
    obtain ⟨letters, hposts⟩ := Crew.exists_posts hsteps
    exact ⟨letters, c, hposts, hfinished, hround⟩
  choose letters hletters using hletters
  exact ⟨⟨fun workers t store tracker => (schedule.play workers t store tracker,
    letters workers t store tracker), hletters⟩, rfl⟩

/-! ## Supersteps of a run -/

namespace Run

variable {r : Run W V M} {tracker : Tracker T} {x : PostedSchedule (r.job tracker)} {state : T}
  {flag : TerminationFlag} {k n : Nat} {d d' : Driver V M T} {letters : List (NodeId × M)}

/-- The frames before and after a superstep of a run, with the messages in the order in which they
    have arrived. -/
theorem posted_spec [Memory.Allocator]
    (h : (r.started tracker x.play state flag)[k]? = some (d, letters))
    (hafter : r.after x.schedule state flag (k + 1) = some d') :
    ∃ f, r.At flag k f d ∧ letters.Perm (r.program.traffic f k) ∧
      r.At flag (k + 1) (r.program.after f k letters) d' := by
  obtain ⟨d₀, workers, f, hprepare, hbefore, hat, -, hletters⟩ :=
    getElem?_started x.schedule (fun _ => rfl) h
  obtain ⟨-, hw⟩ := at_start hprepare flag
  rw [after_succ hprepare hbefore] at hafter
  obtain ⟨c, hposts, hfinished, hround⟩ := x.posted workers k d.store (d.opened tracker)
  rw [← hletters] at hposts
  obtain ⟨hfailure, hnext⟩ := hat.advance_of_completes hw hafter hround
  obtain ⟨hcompletes, halone⟩ :=
    hposts.completes hw.team hat.store hat.course.proper hfinished hfailure
  exact ⟨f, hat, hcompletes.perm, (hnext letters hcompletes halone).2⟩

/-- Every superstep that a run has gone through is one that it has begun. -/
theorem exists_started [Memory.Allocator] (h : r.after x.schedule state flag (k + 1) = some d') :
    ∃ d letters, (r.started tracker x.play state flag)[k]? = some (d, letters) := by
  obtain ⟨d, hd⟩ := exists_after_of_le h (Nat.le_succ k)
  have hgoing : r.stop? flag d.activeNodes k = none := by
    obtain ⟨f, hat⟩ := exists_course hd
    obtain ⟨d₀, workers, hprepare⟩ := exists_prepare_of_after hd
    rw [after_succ hprepare hd] at h
    cases hstop : r.stop? flag d.activeNodes k with
    | none => rfl
    | some termination =>
      rw [advance_of_stop (hat.size_eq.symm ▸ hstop)] at h
      cases h
  have hlt : k < (r.started tracker x.play state flag).length :=
    (lt_length_started_iff x.schedule fun _ => rfl).2 ⟨d, hd, hgoing⟩
  exact ⟨_, _, List.getElem?_eq_getElem hlt⟩

theorem Standing.exists_after [Memory.Allocator] {schedule : Schedule (r.job tracker)}
    {values : PagedArray V}
    {active : Finset Nat} (h : Standing schedule state flag k values active) (hpos : 0 < k) :
    ∃ d, r.after schedule state flag k = some d := by
  cases h with
  | start _ => exact absurd hpos (Nat.lt_irrefl 0)
  | stored hafter _ => exact ⟨_, hafter⟩

section

variable [Memory.Allocator] (hselective : r.reduction.Selective)
  (hunanimous : ∀ k d letters d', (r.started tracker x.play state flag)[k]? = some (d, letters) →
    r.after x.schedule state flag (k + 1) = some d' → Unanimous letters)
include hselective hunanimous

/-- Unanimous messages leave no choice to the schedule: the frames of the machine are followed by
    one another, in whatever order the messages arrive. -/
theorem determined_of_unanimous (h : r.after x.schedule state flag n = some d) :
    ∀ j < n, r.program.Determined (r.program.frame r.initialFrame j) j := by
  intro j hj
  induction j using Nat.strong_induction_on with
  | _ j ih =>
    obtain ⟨d₂, hd₂⟩ := exists_after_of_le h (Nat.succ_le_of_lt hj)
    obtain ⟨d₁, letters, hletters⟩ := exists_started hd₂
    obtain ⟨f, hat, hperm, -⟩ := posted_spec hletters hd₂
    -- superstep `j` of the run starts from the frame of the machine
    obtain ⟨rfl, -⟩ := hat.course.eq_frame_of_after_eq fun i hi arrived harrived _ =>
      ih i hi (hi.trans hj) arrived harrived
    exact Program.determined_of_unanimous hselective ((hunanimous j _ _ _ hletters hd₂).perm hperm)

theorem determined_of_finished {result : RunResult V}
    (h : (Run.under x.schedule state flag).ending = .finished result) :
    ∀ j < result.ranIterations, r.program.Determined (r.program.frame r.initialFrame j) j := by
  intro j hj
  obtain ⟨f, -, -, hstanding, -⟩ := finished_standing h
  obtain ⟨d, hd⟩ := hstanding.exists_after (Nat.zero_lt_of_lt hj)
  exact determined_of_unanimous hselective hunanimous hd j hj

end

section

variable {r' : Run W V M} (hlimits : r.Relimits r')
  (hdetermined : ∀ j < n, r.program.Determined (r.program.frame r.initialFrame j) j)
include hlimits hdetermined

/-- Two runs go through the same frames as long as nothing is left to their schedules. -/
theorem Course.eq_of_determined {f f' : Frame V M} {stats stats' : List SuperstepStats}
    (hk : k ≤ n) (hcourse : r.Course flag k f stats) (hcourse' : r'.Course flag k f' stats') :
    f' = f ∧ stats' = stats := by
  obtain ⟨hprogram, hinitial⟩ := hlimits.program_eq
  obtain ⟨rfl, rfl⟩ := hcourse.eq_frame_of_after_eq fun j hj arrived hperm _ =>
    hdetermined j (hj.trans_le hk) arrived hperm
  obtain ⟨rfl, rfl⟩ := hcourse'.eq_frame_of_after_eq fun j hj arrived hperm _ => by
    rw [hprogram, hinitial] at hperm ⊢
    exact hdetermined j (hj.trans_le hk) arrived hperm
  rw [hprogram, hinitial]
  exact ⟨rfl, rfl⟩

theorem twins_of_determined [Memory.Allocator]
    (hlimit : r'.config.maxIterations = r.config.maxIterations)
    (flag : TerminationFlag) : r.Twins r' flag n := by
  obtain ⟨hvalues, hactive, -⟩ := hlimits.storage_eq
  refine ⟨hlimits.nodeCount_eq, hlimit, hvalues, hactive, ?_⟩
  intro k f f' stats stats' hk hcourse hcourse'
  obtain ⟨rfl, hstats⟩ := Course.eq_of_determined hlimits hdetermined hk hcourse hcourse'
  exact ⟨.refl _, hstats⟩

end

end Run

/-- A run with a reduction that makes of two messages one of the two, under any schedule.

    What the storage has waiting for a node before superstep `k + 1`, and what a worker finds that
    takes the node up in this superstep, is at most one message; it is one of those that have
    arrived for the node in superstep `k`, and there is one if any has arrived; with a reduction
    that keeps the message that is there, it is the first one to arrive. What arrives is what the
    active nodes of superstep `k` have sent, each message once.

    If in every superstep of the run all messages for the same node are equal, it comes to the same
    as any other run that differs from it in the number of workers and in the schedule: after every
    superstep the two have the same storage and the same counts, and if the first one has a result,
    so has the second one, unless its tracker panics, with the same values, the same counts and the
    same termination.

    Such reductions are the built-in minimum and maximum of integers and of node ids, and the
    built-in reduction to the first message for every type of messages that comes with the library
    or treats reductions in the default way. -/
theorem picks_sent_messages [Memory.Allocator] (r : Run W V M) (hselective : r.reduction.Selective)
    {tracker : Tracker T} (x : PostedSchedule (r.job tracker)) (state : T)
    (flag : TerminationFlag) :
    (∀ k d letters d', (r.started tracker x.play state flag)[k]? = some (d, letters) →
      r.after x.schedule state flag (k + 1) = some d' →
        (∃ f, d.store.Holds r.program k f ∧ letters.Perm (r.program.traffic f k)) ∧
        ∀ v < r.nodeCount, ∃ inbox : List M,
          d'.store.mail.waiting? (k + 1) v = some inbox.toArray ∧
          (∀ d₀ workers state' c, r.prepare tracker state = .ok (d₀, workers) →
            Relation.ReflTransGen (Crew.Step (r.job tracker) (k + 1) workers)
              (.start d'.store state') c →
            ∀ j w nodes, workers[j]? = some w → (c.hands j).stage = .between (v :: nodes) →
              c.shared.store.mail.waiting? (k + 1) v = some inbox.toArray) ∧
          inbox.length ≤ 1 ∧ (∀ m ∈ inbox, m ∈ arrivals letters v) ∧
          (inbox ≠ [] ↔ arrivals letters v ≠ []) ∧
          (r.reduction.KeepsFirst → inbox = (arrivals letters v).take 1)) ∧
    ((∀ k d letters d', (r.started tracker x.play state flag)[k]? = some (d, letters) →
        r.after x.schedule state flag (k + 1) = some d' → Unanimous letters) →
      ∀ (T' : Type) (r' : Run W V M) (tracker' : Tracker T')
        (schedule' : Schedule (r'.job tracker')) (state' : T'), r'.graph = r.graph →
        r'.computation = r.computation →
        r'.config = { r.config with concurrency := r'.config.concurrency } →
          (∀ k d d', r.after x.schedule state flag k = some d →
            r'.after schedule' state' flag k = some d' → d.Same r.nodeCount k d') ∧
          ∀ result, (Run.under x.schedule state flag).ending = .finished result →
            (tracker'.Quiet →
              ∃ result', (Run.under schedule' state' flag).ending = .finished result') ∧
            ∀ result', (Run.under schedule' state' flag).ending = .finished result' →
              result.Same r.nodeCount result' ∧ result'.termination = result.termination) ∧
    (∀ kind ∈ [Combiner.min, .max],
      (∀ n, (Reduction.builtin kind : Reduction (Unsigned n)).Selective ∧
        (Reduction.builtin kind : Reduction (Signed n)).Selective) ∧
      (Reduction.builtin kind : Reduction NodeId).Selective) ∧
    (∀ n, (Reduction.builtin .first : Reduction (Unsigned n)).KeepsFirst ∧
      (Reduction.builtin .first : Reduction (Signed n)).KeepsFirst) ∧
    (Reduction.builtin .first : Reduction NodeId).KeepsFirst ∧
    (Reduction.builtin .first : Reduction Binary64).KeepsFirst ∧
    (Reduction.builtin .first : Reduction Float).KeepsFirst ∧
    (Reduction.builtin .first : Reduction Float32).KeepsFirst ∧
    (Reduction.builtin .first : Reduction String).KeepsFirst ∧
    ∀ N : Type, @Reduction.KeepsFirst N {} (.builtin .first) := by
  refine ⟨?_, ?_, ?_, ?_⟩
  · intro k d letters d' hletters hafter
    obtain ⟨f, hat, hperm, hat'⟩ := Run.posted_spec hletters hafter
    refine ⟨⟨f, hat.store, hperm⟩, fun v hv => ?_⟩
    refine ⟨r.reduction.collect (arrivals letters v), hat'.store.inbox_eq v hv, ?_,
      Reduction.length_collect_le hselective.isCombining _,
      fun m hm => hselective.mem_of_mem_collect hm, Reduction.collect_eq_nil_iff.not,
      fun hfirst => hfirst.collect_eq_take _⟩
    intro d₀ workers state' c hprepare hsteps j w nodes hw hstage
    obtain ⟨-, hstaffed⟩ := Run.at_start hprepare flag
    exact (Crew.found_of_steps hsteps hstaffed.team hat'.store hw hstage).2
  · intro hunanimous T' r' tracker' schedule' state' hgraph hcomputation hconfig
    have hlimit : r'.config.maxIterations = r.config.maxIterations := by rw [hconfig]
    have hlimits : r.Relimits r' := ⟨hgraph, hcomputation, by rw [hlimit]; exact hconfig⟩
    refine ⟨fun k d d' hd hd' => ?_, fun result h => ?_⟩
    · have hdetermined := Run.determined_of_unanimous hselective hunanimous hd
      exact (Run.twins_of_determined hlimits hdetermined hlimit flag).same_after le_rfl hd hd'
    · have hdetermined := Run.determined_of_finished hselective hunanimous h
      have htwins := Run.twins_of_determined hlimits hdetermined hlimit flag
      refine ⟨fun htracker' => htwins.exists_finished htracker' h le_rfl ?_, fun result' h' => ?_⟩
      · intro k f f' stats stats' hk hcourse hcourse' hflawless
        obtain ⟨rfl, -⟩ := Run.Course.eq_of_determined hlimits hdetermined hk hcourse hcourse'
        rw [hlimits.program_eq.1]
        exact hflawless
      · obtain ⟨hsame, -, htermination⟩ := htwins.same_result h le_rfl h'
        exact ⟨hsame, htermination⟩
  · intro kind hkind
    have hkind : kind = .min ∨ kind = .max := by simpa using hkind
    exact ⟨fun n => ⟨Reduction.selective_unsigned n hkind, Reduction.selective_signed n hkind⟩,
      Reduction.selective_nodeId hkind⟩
  · refine ⟨fun n => ⟨?_, ?_⟩, ?_, ?_, ?_, ?_, ?_,
      fun N => @Reduction.keepsFirst_first N {} fun _ _ => rfl⟩
    all_goals exact Reduction.keepsFirst_first fun _ _ => rfl

/-- The last two of three nodes have a relationship to the first one. -/
def twoSenders : Graph Unit where
  nodeCount := 3
  relationshipCount := 2
  degree node := if node.val = 0 then 0 else 1
  relationships node := if node.val = 0 then [] else [(⟨0⟩, ())]
  fault? _ := none
  isWeighted := false

/-- Every node tells its neighbours the number 7, and remembers the first number that it is told. -/
def greetings : Computation Unit (Unsigned 64) (Unsigned 64) where
  init _ _ := .ofNat 0
  step view :=
    ⟨view.messages.headD view.value, if view.isInitial then [.toNeighbors (.ofNat 7)] else [], true,
      none⟩
  combiner := none

/-- A run in which each of the two is told it. -/
def greetingsRun (concurrency : Nat)
    (h : checkRun twoSenders { Config.default concurrency with combiner := .first } greetings =
      .ok ()) : Run Unit (Unsigned 64) (Unsigned 64) :=
  ⟨twoSenders, { Config.default concurrency with combiner := .first }, greetings, h⟩

section

variable {concurrency : Nat} {h : checkRun twoSenders
  { Config.default concurrency with combiner := .first } greetings = .ok ()}

/-- All that is ever sent is the number 7, to the first node. -/
theorem eq_of_mem_letters {f : Frame (Unsigned 64) (Unsigned 64)} {k i : Nat}
    {l : NodeId × Unsigned 64}
    (hl : l ∈ (greetingsRun concurrency h).program.letters f k i) : l = (⟨0⟩, .ofNat 7) := by
  obtain ⟨send, hsend, hl⟩ := List.mem_flatMap.1 hl
  have hsend : send ∈ (if decide (k = 0) then [Send.toNeighbors (Unsigned.ofNat 7)] else [] :
      List (Send (Unsigned 64))) := hsend
  split at hsend
  · obtain rfl := List.mem_singleton.1 hsend
    obtain ⟨target, htarget, rfl⟩ := List.mem_map.1 hl
    obtain ⟨a, ha, rfl⟩ := List.mem_map.1 htarget
    have ha : a ∈ (if (NodeId.ofIndex i).val = 0 then [] else [(⟨0⟩, ())] :
        List (NodeId × Unit)) := ha
    split at ha
    · cases ha
    · rw [List.mem_singleton.1 ha]
  · cases hsend

theorem flawless_greetings (f : Frame (Unsigned 64) (Unsigned 64)) (k : Nat) :
    (greetingsRun concurrency h).program.Flawless f k := by
  intro i _
  refine (Program.failure?_eq_none_iff rfl).2 ⟨rfl, fun l hl => ?_⟩
  rw [eq_of_mem_letters hl]
  show 0 < 3
  decide

theorem unanimous_greetings {f : Frame (Unsigned 64) (Unsigned 64)} {k : Nat}
    {letters : List (NodeId × Unsigned 64)}
    (hperm : letters.Perm ((greetingsRun concurrency h).program.traffic f k)) :
    Unanimous letters := by
  have hall : ∀ l ∈ letters, l = (⟨0⟩, .ofNat 7) := by
    intro l hl
    obtain ⟨i, -, hi⟩ := List.mem_flatMap.1 (hperm.mem_iff.1 hl)
    exact eq_of_mem_letters hi
  intro l hl l' hl' _
  rw [hall l hl, hall l' hl']

end

/-- With one worker and with two the first node is told the number 7, whoever is the first to tell
    it. -/
theorem picks_sent_messages_twoSenders :
    (greetingsRun 1 rfl).reduction.Selective ∧
      ∃ x : PostedSchedule ((greetingsRun 1 rfl).job Tracker.silent),
        x.schedule = .inOrder ((greetingsRun 1 rfl).job Tracker.silent) ∧
        (∀ k d letters d', ((greetingsRun 1 rfl).started Tracker.silent x.play () .never)[k]? =
            some (d, letters) →
          (greetingsRun 1 rfl).after x.schedule () .never (k + 1) = some d' →
            Unanimous letters) ∧
        (∃ d', (greetingsRun 1 rfl).after x.schedule () .never 1 = some d' ∧
          d'.store.mail.waiting? 1 0 = some #[.ofNat 7]) ∧
        ∃ result result', (Run.under x.schedule () .never).ending = .finished result ∧
          (Run.under (.inOrder ((greetingsRun 2 rfl).job Tracker.silent)) () .never).ending =
            .finished result' ∧
          result.Same 3 result' ∧ result'.termination = result.termination := by
  have hfirst : (greetingsRun 1 rfl).reduction.KeepsFirst :=
    Reduction.keepsFirst_first fun _ _ => rfl
  obtain ⟨x, hx⟩ :=
    (Schedule.inOrder ((greetingsRun 1 rfl).job Tracker.silent)).exists_posted
  have hunanimous : ∀ k d letters d',
      ((greetingsRun 1 rfl).started Tracker.silent x.play () .never)[k]? = some (d, letters) →
        (greetingsRun 1 rfl).after x.schedule () .never (k + 1) = some d' → Unanimous letters := by
    intro k d letters d' hletters hafter
    obtain ⟨f, -, hperm, -⟩ := Run.posted_spec hletters hafter
    exact unanimous_greetings hperm
  obtain ⟨hdelivered, hsame, -⟩ :=
    picks_sent_messages (greetingsRun 1 rfl) hfirst.selective x () .never
  obtain ⟨-, hresults⟩ := hsame hunanimous Unit (greetingsRun 2 rfl) Tracker.silent
    (.inOrder ((greetingsRun 2 rfl).job Tracker.silent)) () rfl rfl rfl
  obtain ⟨d, workers, hprepare⟩ : ∃ d workers,
      (greetingsRun 1 rfl).prepare Tracker.silent () = .ok (d, workers) := ⟨_, _, rfl⟩
  obtain ⟨result, hresult⟩ : ∃ result,
      (Run.under x.schedule () .never).ending = .finished result :=
    Run.finishes_of_flawless (fun _ _ => rfl) ((greetingsRun 1 rfl).fits_of_prepare hprepare)
      fun k f _ _ _ => flawless_greetings f k
  obtain ⟨hexists, hagree⟩ := hresults result hresult
  obtain ⟨result', hresult'⟩ := hexists fun _ _ => rfl
  obtain ⟨hequal, htermination⟩ := hagree result' hresult'
  refine ⟨hfirst.selective, x, hx, hunanimous, ?_, result, result', hresult, hresult', hequal,
    htermination⟩
  obtain ⟨d', hd'⟩ : ∃ d', (greetingsRun 1 rfl).after x.schedule () .never 1 = some d' := by
    have hactive : d.activeNodes = 3 :=
      ((greetingsRun 1 rfl).prepare_spec hprepare).2.2.2.2.1
    refine Run.exists_after_succ (Run.after_zero hprepare) ?_
      (fun f _ _ => flawless_greetings f 0) fun _ _ => rfl
    rw [hactive]
    rfl
  obtain ⟨d₀, letters, hletters⟩ := Run.exists_started hd'
  obtain ⟨f, hat, hperm, -⟩ := Run.posted_spec hletters hd'
  obtain ⟨-, hinboxes⟩ := hdelivered 0 d₀ letters d' hletters hd'
  obtain ⟨inbox, hwaiting, -, -, -, -, hinbox⟩ := hinboxes 0 (by decide)
  have htraffic : (greetingsRun 1 rfl).program.traffic f 0 =
      List.replicate 2 (⟨0⟩, .ofNat 7) := by
    rw [(hat.course.eq_frame rfl).1]
    decide +kernel
  rw [htraffic, List.perm_replicate] at hperm
  refine ⟨d', hd', ?_⟩
  rw [hwaiting, hinbox hfirst, hperm]
  rfl

end Superstep
