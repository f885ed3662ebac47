import Superstep.Proofs.Pool.Invariant

/-!
# Actions of the driver

Every action of the driver preserves the invariant of its pool. Outside of a superstep each place of
the driver has a lemma of its own; inside of a superstep and at the end the driver only passes from
one barrier to the next.

Result: `Sound.drive`.
-/

namespace Superstep.Pool

variable {W V M T : Type} [Message M] {plan : Plan W V M T} {d : Driver V M T} {x x' : Pool V M T}

/-! ## Outside of a superstep -/

theorem Done.fresh {d₂ : Driver V M T} {c : Crew V M T} (h : x.Done plan d₂ c)
    (hnone : x.failure = none) (hfailure : c.shared.failure = none) : x.Fresh := by
  refine ⟨?_, hnone⟩
  rw [h.aborted]
  simpa using (Crew.failuresRecorded_of_steps h.makes).not_aborted h.finished hfailure

omit [Message M] in
theorem exists_tally_of_end {job : Job W V M T} {outcome : Except RunError Tally}
    {d₂ d₃ : Driver V M T} (h : d₂.endSuperstep job outcome = (d₃, none)) :
    ∃ tally, outcome = .ok tally := by
  unfold Driver.endSuperstep at h
  split at h
  · cases h
  · split at h
    · cases h
    · exact ⟨_, rfl⟩

section Drive

variable (hmeets : x.Meets plan .start) (hs : x.shutdown = x.place.closed)
  (hn : x.shutdowns = x.place.closed.toNat) (hstep : x.drive plan = some x')
include hmeets hs hn hstep

/-- The driver ends, or it polls the flag. -/
theorem sound_of_deciding (hplace : x.place = .deciding)
    (hready : x.Ready plan d .deciding) : x'.Sound plan d := by
  have hstation := congrArg Driver.Place.station hplace
  rw [hplace] at hs hn
  obtain ⟨hheads, hfresh⟩ := hready
  simp only [Pool.drive, hplace] at hstep
  split at hstep
  · next hzero =>
    cases hstep
    exact ⟨hs, hn, .inl ⟨hmeets.congr rfl hstation.symm rfl, .converged hheads hzero⟩⟩
  · next hactive =>
    split at hstep
    · next hlimit =>
      cases hstep
      exact ⟨hs, hn, .inl ⟨hmeets.congr rfl hstation.symm rfl, .stopped hheads hactive hlimit⟩⟩
    · next hbelow =>
      cases hstep
      exact ⟨hs, hn, .inl ⟨hmeets.congr rfl hstation.symm rfl, hheads, hactive,
        Nat.lt_of_not_le hbelow, hfresh⟩⟩

/-- The driver goes on unless the run is cancelled or the flag panics. -/
theorem sound_of_polling (hplace : x.place = .polling)
    (hready : x.Ready plan d .polling) : x'.Sound plan d := by
  have hstation := congrArg Driver.Place.station hplace
  rw [hplace] at hs hn
  obtain ⟨hheads, hactive, hbelow, hfresh⟩ := hready
  simp only [Pool.drive, hplace] at hstep
  split at hstep
  · next hpoll =>
    cases hstep
    exact ⟨hs, hn, .inl ⟨hmeets.congr rfl hstation.symm rfl,
      .flagPanicked hheads hactive hbelow hpoll⟩⟩
  · next hpoll =>
    cases hstep
    exact ⟨hs, hn, .inl ⟨hmeets.congr rfl hstation.symm rfl,
      .cancelled hheads hactive hbelow hpoll⟩⟩
  · next hpoll =>
    cases hstep
    exact ⟨hs, hn, .inl ⟨hmeets.congr rfl hstation.symm rfl,
      ⟨x.driver, hheads, ⟨hactive, hbelow, hpoll⟩, rfl⟩, hfresh⟩⟩

/-- The driver goes on unless the tracker panics. -/
theorem sound_of_beginning (hplace : x.place = .beginning)
    (hready : x.Ready plan d .beginning) : x'.Sound plan d := by
  have hstation := congrArg Driver.Place.station hplace
  rw [hplace] at hs hn
  obtain ⟨⟨d₁, hheads, hgoes, hdriver⟩, hfresh⟩ := hready
  simp only [Pool.drive, hplace] at hstep
  rw [hdriver] at hstep
  split at hstep
  · next hbegin =>
    cases hstep
    exact ⟨hs, hn, .inl ⟨hmeets.congr rfl hstation.symm rfl,
      .beginPanicked hheads hgoes hbegin⟩⟩
  · next hbegin =>
    cases hstep
    exact ⟨hs, hn, .inl ⟨hmeets.congr rfl hstation.symm rfl, ⟨d₁, hheads, hgoes, hbegin⟩, hfresh,
      fun counter hnot => absurd counter.mem_all hnot⟩⟩

/-- The counters are reset one by one. -/
theorem sound_of_resetting {rest : List Counter} (hplace : x.place = .resetting rest)
    (hready : x.Ready plan d (.resetting rest)) : x'.Sound plan d := by
  have hstation := congrArg Driver.Place.station hplace
  rw [hplace] at hs hn
  obtain ⟨hbegun, hfresh, hzero⟩ := hready
  cases rest with
  | nil =>
    simp only [Pool.drive, hplace] at hstep
    cases hstep
    exact ⟨hs, hn, .inl ⟨hmeets.congr rfl hstation.symm rfl, hbegun, hfresh,
      fun counter => hzero counter List.not_mem_nil, rfl⟩⟩
  | cons c rest =>
    simp only [Pool.drive, hplace] at hstep
    cases hstep
    refine ⟨hs, hn, .inl ⟨hmeets.congr rfl hstation.symm rfl, hbegun, hfresh, ?_⟩⟩
    intro counter hnot
    by_cases heq : counter = c
    · subst heq
      exact Function.update_self ..
    · exact (Function.update_of_ne heq ..).trans
        (hzero counter (List.not_mem_cons_of_ne_of_not_mem heq hnot))

theorem sound_of_calling (hplace : x.place = .calling)
    (hready : x.Ready plan d .calling) : x'.Sound plan d := by
  have hstation := congrArg Driver.Place.station hplace
  rw [hplace] at hs hn
  simp only [Pool.drive, hplace] at hstep
  cases hstep
  rcases hmeets.drive_come (.atStart _) hstation rfl with hmeets | ⟨hmeets, hothers⟩
  · exact ⟨hs, hn, .inl ⟨hmeets, hready⟩⟩
  · exact ⟨hs, hn, .inr (opened hmeets hready rfl fun k hk =>
      ⟨_, eq_atStart_of_station (hothers k hk)⟩)⟩

theorem sound_of_atFinish {ticket : Nat} (hplace : x.place = .atFinish ticket)
    (hready : x.Ready plan d (.atFinish ticket)) : x'.Sound plan d := by
  have hstation := congrArg Driver.Place.station hplace
  rw [hplace] at hs hn
  simp only [Pool.drive, hplace] at hstep
  split at hstep
  · cases hstep
  · next hpassed =>
    cases hstep
    obtain ⟨d₂, c, hbegun, hdone, hfailure⟩ := hready
    exact ⟨hs, hn, .inl ⟨hmeets.drive_pass hstation hpassed rfl, d₂, c, hbegun,
      { hdone with }, hfailure⟩⟩

/-- The driver takes the failure, or finds that there is none. -/
theorem sound_of_taking (hplace : x.place = .taking)
    (hready : x.Ready plan d .taking) : x'.Sound plan d := by
  have hstation := congrArg Driver.Place.station hplace
  rw [hplace] at hs hn
  obtain ⟨d₂, c, hbegun, hdone, hfailure⟩ := hready
  simp only [Pool.drive, hplace] at hstep
  split at hstep
  · next e hsome =>
    cases hstep
    refine ⟨hs, hn, .inl ⟨hmeets.congr rfl hstation.symm rfl, d₂, c, hbegun, { hdone with }, rfl,
      ?_⟩⟩
    exact (Round.outcome_eq_error_iff.2 (hfailure.symm.trans hsome)).symm
  · next hnone =>
    cases hstep
    exact ⟨hs, hn, .inl ⟨hmeets.congr rfl hstation.symm rfl, d₂, c, hbegun, { hdone with }, hnone,
      hfailure.symm.trans hnone, fun counter hnot => absurd counter.mem_all hnot⟩⟩

/-- The counters are read one by one. -/
theorem sound_of_reading {rest : List Counter} {found : Counter → Nat}
    (hplace : x.place = .reading rest found)
    (hready : x.Ready plan d (.reading rest found)) : x'.Sound plan d := by
  have hstation := congrArg Driver.Place.station hplace
  rw [hplace] at hs hn
  obtain ⟨d₂, c, hbegun, hdone, hnone, hfailure, hfound⟩ := hready
  cases rest with
  | nil =>
    simp only [Pool.drive, hplace] at hstep
    cases hstep
    refine ⟨hs, hn, .inl ⟨hmeets.congr rfl hstation.symm rfl, d₂, c, hbegun, { hdone with },
      hnone, ?_⟩⟩
    have hcounts : found = (c.counts plan.workers.length).get := by
      funext counter
      exact (hfound counter List.not_mem_nil).trans (hdone.counters counter)
    have hok : (c.round plan.workers).failure = none := hfailure
    rw [hcounts, Tally.ofCounters_get]
    exact (Round.outcome_eq_ok_iff.2 ⟨hok, rfl⟩).symm
  | cons first rest =>
    simp only [Pool.drive, hplace] at hstep
    cases hstep
    refine ⟨hs, hn, .inl ⟨hmeets.congr rfl hstation.symm rfl, d₂, c, hbegun, { hdone with },
      hnone, hfailure, ?_⟩⟩
    intro counter hnot
    by_cases heq : counter = first
    · subst heq
      exact Function.update_self ..
    · exact (Function.update_of_ne heq ..).trans
        (hfound counter (List.not_mem_cons_of_ne_of_not_mem heq hnot))

/-- The driver ends, or it comes back to the head of its loop. -/
theorem sound_of_ending {outcome : Except RunError Tally} (hplace : x.place = .ending outcome)
    (hready : x.Ready plan d (.ending outcome)) : x'.Sound plan d := by
  have hstation := congrArg Driver.Place.station hplace
  rw [hplace] at hs hn
  obtain ⟨d₂, c, hbegun, hdone, hnone, houtcome⟩ := hready
  have hcarries : d₂.Carries plan (c.round plan.workers) :=
    ⟨c, hdone.makes, hdone.finished, rfl⟩
  simp only [Pool.drive, hplace] at hstep
  rw [hdone.driver, houtcome] at hstep
  split at hstep
  · next hend =>
    cases hstep
    exact ⟨hs, hn, .inl ⟨hmeets.congr rfl hstation.symm rfl, .superstep hbegun hcarries hend⟩⟩
  · next hend =>
    cases hstep
    obtain ⟨d₁, hheads, hgoes, hbegin⟩ := hbegun
    obtain ⟨tally, htally⟩ := exists_tally_of_end hend
    have hfailure : c.shared.failure = none := (Round.outcome_eq_ok_iff.1 htally).1
    exact ⟨hs, hn, .inl ⟨hmeets.congr rfl hstation.symm rfl,
      .superstep hheads hgoes hbegin hcarries hend, hdone.fresh hnone hfailure⟩⟩

omit hs in
theorem sound_of_closing {result : DriverEnding} (hplace : x.place = .closing result)
    (hready : x.Ready plan d (.closing result)) : x'.Sound plan d := by
  have hstation := congrArg Driver.Place.station hplace
  rw [hplace] at hn
  simp only [Pool.drive, hplace] at hstep
  cases hstep
  exact ⟨rfl, congrArg (· + 1) hn, .inl ⟨hmeets.congr rfl hstation.symm rfl, hready⟩⟩

theorem sound_of_releasing {result : DriverEnding} (hplace : x.place = .releasing result)
    (hready : x.Ready plan d (.releasing result)) : x'.Sound plan d := by
  have hstation := congrArg Driver.Place.station hplace
  rw [hplace] at hs hn
  simp only [Pool.drive, hplace] at hstep
  cases hstep
  rcases hmeets.drive_come (.atLast result _) hstation rfl with hmeets | ⟨hmeets, hothers⟩
  · exact ⟨hs, hn, .inl ⟨hmeets, hready⟩⟩
  · exact ⟨hs, hn, .inr (opened hmeets hready rfl fun k hk =>
      ⟨_, eq_atStart_of_station (hothers k hk)⟩)⟩

end Drive

/-- Actions of the driver outside of a superstep. -/
theorem Outside.drive (h : x.Outside plan d) (hs : x.shutdown = x.place.closed)
    (hn : x.shutdowns = x.place.closed.toNat) (hstep : x.drive plan = some x') :
    x'.Sound plan d := by
  obtain ⟨hmeets, hready⟩ := h
  cases hplace : x.place with
  | deciding =>
    rw [hplace] at hready
    exact sound_of_deciding hmeets hs hn hstep hplace hready
  | polling =>
    rw [hplace] at hready
    exact sound_of_polling hmeets hs hn hstep hplace hready
  | beginning =>
    rw [hplace] at hready
    exact sound_of_beginning hmeets hs hn hstep hplace hready
  | resetting rest =>
    rw [hplace] at hready
    exact sound_of_resetting hmeets hs hn hstep hplace hready
  | calling =>
    rw [hplace] at hready
    exact sound_of_calling hmeets hs hn hstep hplace hready
  | atStart ticket =>
    have hblocked := hmeets.drive_blocked (congrArg Driver.Place.station hplace)
    simp only [Pool.drive, hplace] at hstep
    rw [if_pos hblocked] at hstep
    cases hstep
  | atFinish ticket =>
    rw [hplace] at hready
    exact sound_of_atFinish hmeets hs hn hstep hplace hready
  | taking =>
    rw [hplace] at hready
    exact sound_of_taking hmeets hs hn hstep hplace hready
  | reading rest found =>
    rw [hplace] at hready
    exact sound_of_reading hmeets hs hn hstep hplace hready
  | ending outcome =>
    rw [hplace] at hready
    exact sound_of_ending hmeets hs hn hstep hplace hready
  | closing result =>
    rw [hplace] at hready
    exact sound_of_closing hmeets hn hstep hplace hready
  | releasing result =>
    rw [hplace] at hready
    exact sound_of_releasing hmeets hs hn hstep hplace hready
  | atLast result ticket =>
    have hblocked := hmeets.drive_blocked (congrArg Driver.Place.station hplace)
    simp only [Pool.drive, hplace] at hstep
    rw [if_pos hblocked] at hstep
    cases hstep
  | awaiting =>
    rw [hplace] at hready
    exact hready.elim
  | joining result =>
    rw [hplace] at hready
    exact hready.elim
  | left result =>
    rw [hplace] at hready
    exact hready.elim

/-! ## Inside of a superstep and at the end -/

/-- Inside of a superstep the driver passes from the first barrier to the second one. -/
theorem Inside.place (h : x.Inside plan d) :
    (∃ ticket, x.place = .atStart ticket) ∨ x.place = .awaiting ∨
      ∃ ticket, x.place = .atFinish ticket := by
  have hopened := h.opened
  have hbefore : x.place.station ≠ .before .start := fun hstation =>
    nomatch h.meets.drive_before hstation
  cases hplace : x.place with
  | atStart ticket => exact .inl ⟨ticket, rfl⟩
  | awaiting => exact .inr (.inl rfl)
  | atFinish ticket => exact .inr (.inr ⟨ticket, rfl⟩)
  | atLast _ _ | joining _ | left _ =>
    rw [hplace] at hopened
    cases hopened
  | _ =>
    rw [hplace] at hbefore
    exact absurd rfl hbefore

theorem Inside.drive (h : x.Inside plan d) (hs : x.shutdown = x.place.closed)
    (hn : x.shutdowns = x.place.closed.toNat) (hstep : x.drive plan = some x') :
    x'.Sound plan d := by
  rcases h.place with ⟨ticket, hplace⟩ | hplace | ⟨ticket, hplace⟩
  · have hstation := congrArg Driver.Place.station hplace
    rw [hplace] at hs hn
    simp only [Pool.drive, hplace] at hstep
    split at hstep
    · cases hstep
    · next hpassed =>
      cases hstep
      exact ⟨hs, hn, .inr (.inl ⟨h.meets.drive_pass hstation hpassed rfl, rfl, { h.turn with }⟩)⟩
  · have hstation := congrArg Driver.Place.station hplace
    rw [hplace] at hs hn
    simp only [Pool.drive, hplace] at hstep
    cases hstep
    rcases h.meets.drive_come (.atFinish _) hstation rfl with hmeets | ⟨hmeets, hothers⟩
    · exact ⟨hs, hn, .inr (.inl ⟨hmeets, rfl, { h.turn with }⟩)⟩
    · exact ⟨hs, hn, .inl (concluded hmeets { h.turn with } rfl fun k hk =>
        ⟨_, eq_atFinish_of_station (hothers k hk)⟩)⟩
  · have hblocked := h.meets.drive_blocked (congrArg Driver.Place.station hplace)
    simp only [Pool.drive, hplace] at hstep
    rw [if_pos hblocked] at hstep
    cases hstep

/-- At the end the driver waits for the workers to be gone. -/
theorem Leaving.drive (h : x.Leaving plan d) (hs : x.shutdown = x.place.closed)
    (hn : x.shutdowns = x.place.closed.toNat) (hstep : x.drive plan = some x') :
    x'.Sound plan d := by
  obtain ⟨result, hends, ⟨ticket, hplace⟩ | hplace | ⟨hplace, -⟩⟩ := h.ends
  · have hstation := congrArg Driver.Place.station hplace
    rw [hplace] at hs hn
    simp only [Pool.drive, hplace] at hstep
    split at hstep
    · cases hstep
    · next hpassed =>
      cases hstep
      exact ⟨hs, hn, .inr (.inr ⟨h.meets.drive_pass hstation hpassed rfl,
        ⟨result, hends, .inr (.inl rfl)⟩, h.departs⟩)⟩
  · have hstation := congrArg Driver.Place.station hplace
    rw [hplace] at hs hn
    simp only [Pool.drive, hplace] at hstep
    split at hstep
    · next hgone =>
      cases hstep
      have hgone : ∀ k < plan.workers.length, x.places k = .gone := by
        intro k hk
        have hk := List.all_eq_true.1 hgone k (List.mem_range.2 hk)
        cases hplace : x.places k with
        | gone => rfl
        | _ =>
          rw [hplace] at hk
          cases hk
      exact ⟨hs, hn, .inr (.inr ⟨h.meets.congr rfl hstation.symm rfl,
        ⟨result, hends, .inr (.inr ⟨rfl, hgone⟩)⟩, h.departs⟩)⟩
    · cases hstep
  · simp only [Pool.drive, hplace] at hstep
    cases hstep

/-- Every action of the driver preserves the invariant. -/
theorem Sound.drive (h : x.Sound plan d) (hstep : x.drive plan = some x') : x'.Sound plan d := by
  rcases h.phase with houtside | hinside | hleaving
  · exact houtside.drive h.shutdown h.shutdowns hstep
  · exact hinside.drive h.shutdown h.shutdowns hstep
  · exact hleaving.drive h.shutdown h.shutdowns hstep

end Superstep.Pool
