import Superstep.Proofs.Pool.Driver

/-!
# Actions of the workers

Every action of a worker preserves the invariant of its pool. Inside of a superstep an action of a
worker that carries out its nodes is one of the superstep by itself (`Turn.act`), and every other
one leaves that superstep as it is (`Turn.work`).

Result: `Sound.work`.
-/

namespace Superstep.Pool

variable {W V M T : Type} [Message M] {plan : Plan W V M T} {d : Driver V M T} {x x' : Pool V M T}
  {k : Nat} {w : Worker}

/-! ## Outside of a superstep -/

/-- Outside of a superstep the workers pass from the second barrier to the first one. -/
theorem Outside.work (h : x.Outside plan d) (hs : x.shutdown = x.place.closed)
    (hn : x.shutdowns = x.place.closed.toNat) (hw : plan.workers[k]? = some w)
    (hstep : x.work plan k w = some x') : x'.Sound plan d := by
  obtain ⟨hmeets, hready⟩ := h
  have hk : k < plan.workers.length := (List.getElem?_eq_some_iff.1 hw).1
  have hbefore : (x.places k).station ≠ .before .finish := fun hstation =>
    nomatch hmeets.work_before hk hstation
  cases hplace : x.places k with
  | idle =>
    have hstation := congrArg Worker.Place.station hplace
    simp only [Pool.work, hplace] at hstep
    cases hstep
    rcases hmeets.work_come hk (.atStart _) hstation rfl with hmeets | ⟨hmeets, hdriver, hothers⟩
    · exact ⟨hs, hn, .inl ⟨hmeets, hready.elsewhere _ _⟩⟩
    · refine ⟨hs, hn, .inr (opened hmeets (hready.elsewhere _ _) hdriver fun j hj => ?_)⟩
      by_cases hjk : j = k
      · subst hjk
        exact ⟨_, places_moves_self ..⟩
      · exact ⟨_, (places_moves_of_ne hjk _).trans
          (eq_atStart_of_station (hothers j hj hjk))⟩
  | atStart ticket =>
    have hblocked := hmeets.work_blocked hk (congrArg Worker.Place.station hplace)
    simp only [Pool.work, hplace] at hstep
    rw [if_pos hblocked] at hstep
    cases hstep
  | atFinish ticket =>
    have hstation := congrArg Worker.Place.station hplace
    simp only [Pool.work, hplace] at hstep
    split at hstep
    · cases hstep
    · next hpassed =>
      cases hstep
      exact ⟨hs, hn, .inl ⟨hmeets.work_pass hk hstation hpassed rfl, hready.elsewhere _ _⟩⟩
  | _ =>
    rw [hplace] at hbefore
    exact absurd rfl hbefore

/-! ## Inside of a superstep -/

/-- Two pools in which only worker `k` may stand elsewhere or have something else in hand. -/
structure Beside (k : Nat) (x x' : Pool V M T) : Prop where
  superstep : x'.superstep = x.superstep
  places : ∀ j, j ≠ k → x'.places j = x.places j
  turns : ∀ j, j ≠ k → x'.turns j = x.turns j
  hands : ∀ j, j ≠ k → x'.hands j = x.hands j

omit [Message M] in
theorem beside_moves (x : Pool V M T) (k : Nat) (next : Worker.Place) :
    Beside k x (x.moves k next) :=
  ⟨rfl, fun _ hj => places_moves_of_ne hj next, fun _ _ => rfl, fun _ _ => rfl⟩

/-- A worker that does not carry out its nodes leaves the superstep as it is, if what it has added
    to the counters since is what they show. -/
theorem Turn.work (h : x.Turn plan d) (hk : k < plan.workers.length) (hbeside : Beside k x x')
    (hdriver : x'.driver = x.driver) (hshared : x'.shared = x.shared)
    {place next : Worker.Place} {turn : Nat} {hand : Hand V M}
    (hplace : x.places k = place) (hnext : x'.places k = next) (hturn : x'.turns k = turn)
    (hhand : x'.hands k = hand)
    (hholds : ∀ shown, place.Holds x.superstep (x.turns k) (x.hands k) shown →
      next.Holds x.superstep turn hand shown)
    (hcounters : ∀ counter, x'.counters counter + place.added (x.hands k) counter =
      x.counters counter + next.added hand counter) : x'.Turn plan d := by
  obtain ⟨d₂, c, hbegun, hmakes, hcrew, hd, hall⟩ := h.crew
  have hsame : d₂.supersteps.size = x.superstep := by
    rw [h.superstep, hd]
    rfl
  refine ⟨?_, ⟨d₂, c, hbegun, hmakes, hshared.trans hcrew, hdriver.trans hd, fun j hj => ?_⟩,
    fun counter => ?_⟩
  · rw [hbeside.superstep, hdriver]
    exact h.superstep
  · by_cases hjk : j = k
    · subst hjk
      have hj := hall j hj
      rw [hsame, hplace] at hj
      rw [hsame, hnext, hturn, hhand]
      exact hholds _ hj
    · rw [hbeside.places j hjk, hbeside.turns j hjk, hbeside.hands j hjk]
      exact hall j hj
  · have hsum := Crew.sum_of_others hk (fun j => (x.places j).added (x.hands j) counter)
      (fun j => (x'.places j).added (x'.hands j) counter) fun j hj => by
        rw [hbeside.places j hj, hbeside.hands j hj]
    have hold := h.counters counter
    have hnew := hcounters counter
    rw [hplace, hnext, hhand] at hsum
    omega

/-- The action of a worker that carries out its nodes is one of the superstep by itself. -/
theorem Turn.act (h : x.Turn plan d) (hw : plan.workers[k]? = some w)
    (hplace : x.places k = .working) {hand : Hand V M} {s : Shared V M T}
    (hact : w.act plan.job (x.turns k) (x.hands k) x.shared = some (hand, s)) :
    Turn plan d { x.putShared s with hands := Function.update x.hands k hand } := by
  have hk : k < plan.workers.length := (List.getElem?_eq_some_iff.1 hw).1
  obtain ⟨d₂, c, hbegun, hmakes, hcrew, hd, hall⟩ := h.crew
  obtain ⟨hturn, hhand⟩ : x.turns k = d₂.supersteps.size ∧ x.hands k = c.hands k := by
    have hk := hall k hk
    rwa [hplace] at hk
  rw [hturn, hhand, hcrew] at hact
  refine ⟨h.superstep, ⟨d₂, ⟨Function.update c.hands k hand, s⟩, hbegun, hmakes.tail ⟨hw, hact⟩,
    rfl, ?_, fun j hj => ?_⟩, fun counter => ?_⟩
  · show x.driver.withStore s.store s.tracker = d₂.withStore s.store s.tracker
    rw [hd]
    rfl
  · show (x.places j).Holds _ (x.turns j) (Function.update x.hands k hand j)
      (Function.update c.hands k hand j)
    by_cases hjk : j = k
    · subst hjk
      rw [hplace, Function.update_self, Function.update_self]
      exact ⟨hturn, rfl⟩
    · rw [Function.update_of_ne hjk, Function.update_of_ne hjk]
      exact hall j hj
  · refine (h.counters counter).trans (Finset.sum_congr rfl fun j _ => ?_)
    show (x.places j).added (x.hands j) counter =
      (x.places j).added (Function.update x.hands k hand j) counter
    by_cases hjk : j = k
    · subst hjk
      rw [hplace]
      rfl
    · rw [Function.update_of_ne hjk]

section Work

variable (hs : x.shutdown = x.place.closed) (hn : x.shutdowns = x.place.closed.toNat)
  (h : x.Inside plan d) (hw : plan.workers[k]? = some w) (hstep : x.work plan k w = some x')
include hs hn h hw hstep

theorem sound_of_work_atStart {ticket : Nat} (hplace : x.places k = .atStart ticket) :
    x'.Sound plan d := by
  have hk : k < plan.workers.length := (List.getElem?_eq_some_iff.1 hw).1
  have hstation := congrArg Worker.Place.station hplace
  simp only [Pool.work, hplace] at hstep
  split at hstep
  · cases hstep
  · next hpassed =>
    cases hstep
    exact ⟨hs, hn, .inr (.inl ⟨h.meets.work_pass hk hstation hpassed rfl, h.opened,
      h.turn.work hk (beside_moves x k _) rfl rfl hplace (places_moves_self ..) rfl rfl
        (fun _ hholds => hholds) fun _ => rfl⟩)⟩

theorem sound_of_work_looking (hplace : x.places k = .looking) : x'.Sound plan d := by
  have hk : k < plan.workers.length := (List.getElem?_eq_some_iff.1 hw).1
  have hstation := congrArg Worker.Place.station hplace
  have hgoing : x.shutdown = false := hs.trans h.opened
  simp only [Pool.work, hplace, hgoing, Bool.false_eq_true, if_false] at hstep
  cases hstep
  exact ⟨hs, hn, .inr (.inl ⟨h.meets.work_quiet hk hstation.symm, h.opened,
    h.turn.work hk (beside_moves x k _) rfl rfl hplace (places_moves_self ..) rfl rfl
      (fun _ hholds => hholds) fun _ => rfl⟩)⟩

theorem sound_of_work_fetching (hplace : x.places k = .fetching) : x'.Sound plan d := by
  have hk : k < plan.workers.length := (List.getElem?_eq_some_iff.1 hw).1
  have hstation := congrArg Worker.Place.station hplace
  simp only [Pool.work, hplace] at hstep
  cases hstep
  have hmeets : (x.moves k .working).Meets plan .finish := h.meets.work_quiet hk hstation.symm
  refine ⟨hs, hn, .inr (.inl ⟨hmeets.congr rfl rfl rfl, h.opened, ?_⟩)⟩
  refine h.turn.work hk ⟨rfl, fun _ hj => places_moves_of_ne hj _,
    fun _ hj => Function.update_of_ne hj .., fun _ hj => Function.update_of_ne hj ..⟩ rfl rfl hplace
    (places_moves_self ..) (Function.update_self ..) (Function.update_self ..) ?_ fun _ => rfl
  intro shown hholds
  exact ⟨rfl, hholds.symm⟩

/-- A worker carries out its nodes, or is done. -/
theorem sound_of_work_working (hplace : x.places k = .working) : x'.Sound plan d := by
  have hk : k < plan.workers.length := (List.getElem?_eq_some_iff.1 hw).1
  have hstation := congrArg Worker.Place.station hplace
  simp only [Pool.work, hplace] at hstep
  split at hstep
  · next hand s hact =>
    cases hstep
    exact ⟨hs, hn, .inr (.inl ⟨h.meets.congr rfl rfl rfl, h.opened,
      h.turn.act hw hplace hact⟩)⟩
  · next hnone =>
    cases hstep
    have hdone : ∃ failed, (x.hands k).stage = .done failed := by
      by_contra hnot
      obtain ⟨hand, s, hact⟩ := w.exists_act plan.job (x.turns k) (x.hands k) x.shared
        fun failed hstage => hnot ⟨failed, hstage⟩
      rw [hnone] at hact
      cases hact
    refine ⟨hs, hn, .inr (.inl ⟨h.meets.work_quiet hk hstation.symm, h.opened, ?_⟩)⟩
    refine h.turn.work hk (beside_moves x k _) rfl rfl hplace (places_moves_self ..) rfl rfl
      (fun _ hholds => ⟨hholds.1, hholds.2, hdone, by decide⟩) fun counter => ?_
    show x.counters counter + 0 = x.counters counter + if counter ∈ Counter.all then 0 else _
    rw [if_pos counter.mem_all]

/-- A worker adds to a counter. -/
theorem sound_of_work_adding {c : Counter} {rest : List Counter}
    (hplace : x.places k = .adding (c :: rest)) : x'.Sound plan d := by
  have hk : k < plan.workers.length := (List.getElem?_eq_some_iff.1 hw).1
  have hstation := congrArg Worker.Place.station hplace
  simp only [Pool.work, hplace] at hstep
  cases hstep
  have hmeets : (x.moves k (.adding rest)).Meets plan .finish := h.meets.work_quiet hk hstation.symm
  refine ⟨hs, hn, .inr (.inl ⟨hmeets.congr rfl rfl rfl, h.opened, ?_⟩)⟩
  obtain ⟨_, _, -, -, -, -, hall⟩ := h.turn.crew
  have hnodup : (c :: rest).Nodup := by
    have hk := hall k hk
    rw [hplace] at hk
    exact hk.2.2.2
  refine h.turn.work hk ⟨rfl, fun _ hj => places_moves_of_ne hj _, fun _ _ => rfl,
    fun _ _ => rfl⟩ rfl rfl hplace (places_moves_self ..) rfl rfl
    (fun _ hholds => ⟨hholds.1, hholds.2.1, hholds.2.2.1, hnodup.of_cons⟩) fun counter => ?_
  show Function.update x.counters c _ counter + (if counter ∈ c :: rest then 0 else _) =
    x.counters counter + if counter ∈ rest then 0 else _
  by_cases heq : counter = c
  · subst heq
    rw [Function.update_self, if_pos List.mem_cons_self, if_neg (List.nodup_cons.1 hnodup).1]
    rfl
  · rw [Function.update_of_ne heq]
    simp only [List.mem_cons, heq, false_or]
    rfl

/-- A worker that is through with the counters comes to the second barrier. -/
theorem sound_of_work_added (hplace : x.places k = .adding []) : x'.Sound plan d := by
  have hk : k < plan.workers.length := (List.getElem?_eq_some_iff.1 hw).1
  have hstation := congrArg Worker.Place.station hplace
  simp only [Pool.work, hplace] at hstep
  cases hstep
  have hturn : ((x.come (plan.workers.length + 1) .finish).moves k
      (.atFinish (x.barriers .finish).generation)).Turn plan d :=
    h.turn.work hk ⟨rfl, fun _ hj => places_moves_of_ne hj _, fun _ _ => rfl, fun _ _ => rfl⟩ rfl
      rfl hplace (places_moves_self ..) rfl rfl
      (fun _ hholds => ⟨hholds.1, hholds.2.1, hholds.2.2.1⟩) fun _ => rfl
  rcases h.meets.work_come hk (.atFinish _) hstation rfl with hmeets | ⟨hmeets, hdriver, hothers⟩
  · exact ⟨hs, hn, .inr (.inl ⟨hmeets, h.opened, hturn⟩)⟩
  · obtain ⟨ticket, hlast⟩ : ∃ ticket, x.place = .atFinish ticket := by
      rcases h.place with ⟨_, hplace⟩ | hplace | hplace
      · rw [hplace] at hdriver
        cases hdriver
      · rw [hplace] at hdriver
        cases hdriver
      · exact hplace
    refine ⟨hs, hn, .inl (concluded hmeets hturn hlast fun j hj => ?_)⟩
    by_cases hjk : j = k
    · subst hjk
      exact ⟨_, places_moves_self ..⟩
    · exact ⟨_, (places_moves_of_ne hjk _).trans (eq_atFinish_of_station (hothers j hj hjk))⟩

/-- Actions of the workers inside of a superstep. -/
theorem Inside.work : x'.Sound plan d := by
  have hk : k < plan.workers.length := (List.getElem?_eq_some_iff.1 hw).1
  obtain ⟨_, _, -, -, -, -, hall⟩ := h.turn.crew
  have hholds := hall k hk
  cases hplace : x.places k with
  | idle =>
    rw [hplace] at hholds
    exact hholds.elim
  | atStart ticket => exact sound_of_work_atStart hs hn h hw hstep hplace
  | looking => exact sound_of_work_looking hs hn h hw hstep hplace
  | fetching => exact sound_of_work_fetching hs hn h hw hstep hplace
  | working => exact sound_of_work_working hs hn h hw hstep hplace
  | adding rest =>
    cases rest with
    | nil => exact sound_of_work_added hs hn h hw hstep hplace
    | cons c rest => exact sound_of_work_adding hs hn h hw hstep hplace
  | atFinish ticket =>
    have hblocked := h.meets.work_blocked hk (congrArg Worker.Place.station hplace)
    simp only [Pool.work, hplace] at hstep
    rw [if_pos hblocked] at hstep
    cases hstep
  | gone =>
    rw [hplace] at hholds
    exact hholds.elim

end Work

/-! ## At the end -/

theorem Leaving.closed (h : x.Leaving plan d) : x.place.closed = true := by
  obtain ⟨result, -, ⟨ticket, hplace⟩ | hplace | ⟨hplace, -⟩⟩ := h.ends
  all_goals
    rw [hplace]
    rfl

/-- While a worker is not gone, the driver has not left. -/
theorem Leaving.moves (h : x.Leaving plan d) (hk : k < plan.workers.length)
    (hnot : x.places k ≠ .gone) {next : Worker.Place}
    (hmeets : (x.moves k next).Meets plan .finish) (hdeparts : Departs next) :
    (x.moves k next).Leaving plan d := by
  obtain ⟨result, hends, hplace⟩ := h.ends
  refine ⟨hmeets, ⟨result, hends, ?_⟩, fun j hj => ?_⟩
  · rcases hplace with hplace | hplace | ⟨-, hgone⟩
    · exact .inl hplace
    · exact .inr (.inl hplace)
    · exact absurd (hgone k hk) hnot
  · by_cases hjk : j = k
    · subst hjk
      rw [places_moves_self]
      exact hdeparts
    · rw [places_moves_of_ne hjk]
      exact h.departs j hj

/-- Actions of the workers at the end. -/
theorem Leaving.work (h : x.Leaving plan d) (hs : x.shutdown = x.place.closed)
    (hn : x.shutdowns = x.place.closed.toNat) (hw : plan.workers[k]? = some w)
    (hstep : x.work plan k w = some x') : x'.Sound plan d := by
  have hk : k < plan.workers.length := (List.getElem?_eq_some_iff.1 hw).1
  have hdeparts := h.departs k hk
  cases hplace : x.places k with
  | atStart ticket =>
    have hstation := congrArg Worker.Place.station hplace
    simp only [Pool.work, hplace] at hstep
    split at hstep
    · cases hstep
    · next hpassed =>
      cases hstep
      exact ⟨hs, hn, .inr (.inr (h.moves hk (by rw [hplace]; nofun)
        (h.meets.work_pass hk hstation hpassed rfl) trivial))⟩
  | looking =>
    have hstation := congrArg Worker.Place.station hplace
    have hstop : x.shutdown = true := hs.trans h.closed
    simp only [Pool.work, hplace, hstop, if_true] at hstep
    cases hstep
    exact ⟨hs, hn, .inr (.inr (h.moves hk (by rw [hplace]; nofun)
      (h.meets.work_quiet hk hstation.symm) trivial))⟩
  | gone =>
    simp only [Pool.work, hplace] at hstep
    cases hstep
  | _ =>
    rw [hplace] at hdeparts
    exact hdeparts.elim

/-- Every action of a worker preserves the invariant. -/
theorem Sound.work (h : x.Sound plan d) (hw : plan.workers[k]? = some w)
    (hstep : x.work plan k w = some x') : x'.Sound plan d := by
  rcases h.phase with houtside | hinside | hleaving
  · exact houtside.work h.shutdown h.shutdowns hw hstep
  · exact hinside.work h.shutdown h.shutdowns hw hstep
  · exact hleaving.work h.shutdown h.shutdowns hw hstep

end Superstep.Pool
