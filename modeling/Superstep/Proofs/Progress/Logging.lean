import Superstep.Proofs.Crew.Reports
import Superstep.Progress.Logging

/-!
# The tenths of a superstep

What `LoggingProgress` counts and logs when one call comes after the other, as long as they are
about no more nodes than the volume (`LoggingProgress.Counts`). The sums are words then. As long as
ten times what is done is a word, the last tenth that has been logged is the one that has been
reached among the natural numbers; from then on every call panics.

Results:
* `Counts.reach_eq`: the tenth to which a call comes, or why it panics.
* `Counts.replay`: the counts after some calls.
* `Counts.panics_eq_nil`: when calls do not panic.
* `getLast?_percents`: the last percentage that has been logged.
-/

namespace Superstep

/-- The percentage of a line, if it has one. -/
def ProgressEvent.percent? : ProgressEvent → Option UInt64
  | .progress percent => some percent
  | _ => none

namespace LoggingProgress

variable {volume done tenth : UInt64}

theorem toNat_max_one (volume : UInt64) : (max volume 1).toNat = max volume.toNat 1 :=
  UInt64.toNat_max volume 1

/-- A tenth is computed if the product is a word. Then it is what it is among the natural
    numbers. -/
theorem tenth?_eq_some_iff : tenth? volume done = some tenth ↔
    10 * min done.toNat (max volume.toNat 1) < wordLimit ∧
      tenth.toNat = 10 * min done.toNat (max volume.toNat 1) / max volume.toNat 1 := by
  have hfactor : (min done (max volume 1)).toNat * (10 : UInt64).toNat =
      10 * min done.toNat (max volume.toNat 1) := by
    rw [UInt64.toNat_min, toNat_max_one, Nat.mul_comm]
    rfl
  unfold tenth?
  simp only
  by_cases hsmall : 10 * min done.toNat (max volume.toNat 1) < wordLimit
  · have hvalue : (min done (max volume 1) * 10 / max volume 1).toNat =
        10 * min done.toNat (max volume.toNat 1) / max volume.toNat 1 := by
      rw [UInt64.toNat_div, Word.toNat_mul_of_lt (hfactor ▸ hsmall), hfactor, toNat_max_one]
    rw [Word.mul?_of_lt (hfactor ▸ hsmall), Option.map_some, Option.some.injEq,
      ← UInt64.toNat_inj, hvalue, eq_comm, and_iff_right hsmall]
  · rw [Word.mul?_eq_none (hfactor ▸ Nat.not_lt.1 hsmall), Option.map_none]
    exact iff_of_false nofun fun h => hsmall h.1

theorem tenth_le_ten (h : tenth? volume done = some tenth) : tenth.toNat ≤ 10 := by
  rw [(tenth?_eq_some_iff.1 h).2]
  refine Nat.div_le_of_le_mul ?_
  have := Nat.min_le_right done.toNat (max volume.toNat 1)
  omega

theorem toNat_percent (h : tenth.toNat ≤ 10) : (tenth * 10).toNat = 10 * tenth.toNat :=
  (Word.toNat_mul_of_lt (show tenth.toNat * 10 < wordLimit by unfold wordLimit; omega)).trans
    (Nat.mul_comm _ _)

/-! ## One call -/

variable {p : LoggingProgress} {d n : Nat}

/-- The last tenth after a call. -/
def raised (p : LoggingProgress) (n : UInt64) : UInt64 :=
  match p.reach n with
  | .error _ => p.reported
  | .ok tenth => if p.reported < tenth then tenth else p.reported

/-- A call of the log counts its nodes, whether it panics or not. It logs the tenth that it
    raises. -/
theorem take_eq (p : LoggingProgress) (n : Nat) :
    p.take (.logProgress n) =
      ({ p with processed := p.processed + n.toUInt64, reported := p.raised n.toUInt64 },
        (p.reach n.toUInt64).map fun _ =>
          if p.reported < p.raised n.toUInt64 then [.progress (p.raised n.toUInt64 * 10)]
          else []) := by
  unfold take raised
  dsimp only
  cases p.reach n.toUInt64 with
  | error overflow => rfl
  | ok tenth => by_cases hlt : p.reported < tenth <;> simp [hlt, Except.map]

theorem take_logProgress (p : LoggingProgress) (n : Nat) :
    (p.take (.logProgress n)).1 =
      { p with processed := p.processed + n.toUInt64, reported := p.raised n.toUInt64 } := by
  rw [take_eq]

theorem take_of_raised_eq {p : LoggingProgress} {n : Nat} (h : p.raised n.toUInt64 = p.reported) :
    (p.take (.logProgress n)).1 = { p with processed := p.processed + n.toUInt64 } := by
  rw [take_logProgress, h]

theorem panic?_logProgress (p : LoggingProgress) (n : Nat) :
    p.panic? (.logProgress n) =
      match p.reach n.toUInt64 with
      | .error overflow => some overflow.payload
      | .ok _ => none := by
  rw [panic?, take_eq]
  cases p.reach n.toUInt64 <;> rfl

theorem reported_le_raised (p : LoggingProgress) (n : UInt64) : p.reported ≤ p.raised n := by
  unfold raised
  split
  · exact UInt64.le_refl _
  · split
    · next hlt => exact UInt64.le_of_lt hlt
    · exact UInt64.le_refl _

theorem raised_of_reach {n : UInt64} (h : p.reach n = .ok tenth) :
    tenth ≤ p.raised n ∧ (p.raised n = tenth ∨ p.raised n = p.reported) := by
  unfold raised
  rw [h]
  simp only
  split
  · exact ⟨UInt64.le_refl _, .inl rfl⟩
  · next hnot => exact ⟨UInt64.not_lt.1 hnot, .inr rfl⟩

theorem reach_of_add? {n : UInt64} (h : Word.add? p.processed n = some done) :
    p.reach n = match tenth? p.volume done with
      | none => .error .product
      | some tenth => .ok tenth := by
  cases htenth : tenth? p.volume done with
  | none => simp only [reach, h, htenth]
  | some tenth => simp only [reach, h, htenth]

/-! ## One call after the other -/

/-- In a superstep with the given volume `d` nodes have been reported. As long as ten times their
    number is a word, the tenth that they have reached is the last one that has been logged. -/
structure Counts (p : LoggingProgress) (volume : UInt64) (d : Nat) : Prop where
  volume_eq : p.volume = volume
  processed : p.processed.toNat = d
  reported_le : p.reported.toNat ≤ 10 * d / max volume.toNat 1
  reported_eq : 10 * d < wordLimit → p.reported.toNat = 10 * d / max volume.toNat 1

theorem counts_zero (hprocessed : p.processed = 0) (hreported : p.reported = 0) :
    p.Counts p.volume 0 where
  volume_eq := rfl
  processed := congrArg UInt64.toNat hprocessed
  reported_le := by
    rw [hreported]
    exact Nat.zero_le _
  reported_eq := fun _ => by
    rw [hreported, Nat.mul_zero, Nat.zero_div]
    rfl

section

variable (h : p.Counts volume d) (hle : d + n ≤ max volume.toNat 1)
include h hle

theorem Counts.add?_eq :
    ∃ done, Word.add? p.processed n.toUInt64 = some done ∧ p.processed + n.toUInt64 = done ∧
      done.toNat = d + n := by
  have hlt : d + n < wordLimit := by
    have hmax := toNat_lt_wordLimit (max volume 1)
    rw [toNat_max_one] at hmax
    omega
  have hsum : p.processed.toNat + n.toUInt64.toNat = d + n := by
    rw [h.processed, toNat_toUInt64 (by omega)]
  exact ⟨_, Word.add?_of_lt (hsum.trans_lt hlt), rfl,
    (Word.toNat_add_of_lt (hsum.trans_lt hlt)).trans hsum⟩

/-- A call comes to the tenth of the nodes that are then done, or panics because ten times their
    number is no word. -/
theorem Counts.reach_eq :
    p.reach n.toUInt64 =
      if 10 * (d + n) < wordLimit then .ok (10 * (d + n) / max volume.toNat 1).toUInt64
      else .error .product := by
  obtain ⟨done, hadd, -, hdone⟩ := h.add?_eq hle
  have hmin : min done.toNat (max p.volume.toNat 1) = d + n := by
    rw [hdone, h.volume_eq, Nat.min_eq_left hle]
  rw [reach_of_add? hadd]
  split_ifs with hsmall
  · have hten : 10 * (d + n) / max volume.toNat 1 ≤ 10 := Nat.div_le_of_le_mul (by omega)
    have htenth : tenth? p.volume done =
        some (10 * (d + n) / max volume.toNat 1).toUInt64 := by
      rw [tenth?_eq_some_iff, hmin, h.volume_eq]
      exact ⟨hsmall, toNat_toUInt64 (by unfold wordLimit; omega)⟩
    rw [htenth]
  · have hnone : tenth? p.volume done = none := by
      refine Option.eq_none_iff_forall_ne_some.2 fun tenth htenth => hsmall ?_
      rw [← hmin]
      exact (tenth?_eq_some_iff.1 htenth).1
    rw [hnone]

theorem Counts.panic?_eq :
    p.panic? (.logProgress n) =
      if 10 * (d + n) < wordLimit then none else some Overflow.product.payload := by
  rw [panic?_logProgress, h.reach_eq hle]
  split_ifs <;> rfl

/-- The nodes of a call are counted, whether it panics or not. -/
theorem Counts.take : (p.take (.logProgress n)).1.Counts volume (d + n) := by
  obtain ⟨done, -, hprocessed, hdone⟩ := h.add?_eq hle
  have hmono : 10 * d / max volume.toNat 1 ≤ 10 * (d + n) / max volume.toNat 1 :=
    Nat.div_le_div_right (by omega)
  have hold := h.reported_le
  rw [take_logProgress]
  refine ⟨h.volume_eq, hprocessed ▸ hdone, ?_, fun hsmall => ?_⟩
  · show (p.raised n.toUInt64).toNat ≤ _
    unfold raised
    rw [h.reach_eq hle]
    split_ifs with hsmall
    · simp only
      split
      · exact Nat.mod_le _ _
      · exact hold.trans hmono
    · exact hold.trans hmono
  · have hreach := h.reach_eq hle
    rw [if_pos hsmall] at hreach
    have hten : 10 * (d + n) / max volume.toNat 1 ≤ 10 := Nat.div_le_of_le_mul (by omega)
    have hvalue : (10 * (d + n) / max volume.toNat 1).toUInt64.toNat = _ :=
      toNat_toUInt64 (by unfold wordLimit; omega)
    obtain ⟨hge, heq | heq⟩ := raised_of_reach hreach
    · exact (congrArg UInt64.toNat heq).trans hvalue
    · rw [heq, UInt64.le_iff_toNat_le, hvalue] at hge
      exact (congrArg UInt64.toNat heq).trans (le_antisymm (hold.trans hmono) hge)

end

theorem replay_cons (r : Report) (reports : List Report) (p : LoggingProgress) :
    tracker.replay (r :: reports) p = tracker.replay reports (p.take r).1 :=
  rfl

theorem volume_replay (calls : List Call) (p : LoggingProgress) :
    (tracker.replay (calls.map Call.report) p).volume = p.volume ∧
      (tracker.replay (calls.map Call.report) p).superstep = p.superstep := by
  induction calls generalizing p with
  | nil => exact ⟨rfl, rfl⟩
  | cons call calls ih =>
    rw [List.map_cons, replay_cons]
    obtain ⟨hvolume, hsuperstep⟩ := ih (p.take call.report).1
    rw [hvolume, hsuperstep]
    unfold Call.report
    rw [take_logProgress]
    exact ⟨rfl, rfl⟩

theorem Counts.replay (h : p.Counts volume d) {calls : List Call}
    (hcalls : d + Call.total calls ≤ max volume.toNat 1) :
    (tracker.replay (calls.map Call.report) p).Counts volume (d + Call.total calls) := by
  induction calls generalizing p d with
  | nil => exact h
  | cons call calls ih =>
    rw [Call.total_cons, ← Nat.add_assoc] at hcalls ⊢
    exact ih (h.take (by omega)) hcalls

/-- Calls do not panic as long as ten times what is done is a word. -/
theorem Counts.panics_eq_nil (h : p.Counts volume d) {calls : List Call}
    (hcalls : d + Call.total calls ≤ max volume.toNat 1)
    (hsmall : 10 * (d + Call.total calls) < wordLimit) :
    tracker.panics (calls.map Call.report) p = [] := by
  induction calls generalizing p d with
  | nil => rfl
  | cons call calls ih =>
    rw [Call.total_cons, ← Nat.add_assoc] at hcalls hsmall
    have hpanic : (tracker.take call.report p).2 = none :=
      (h.panic?_eq (by omega)).trans (if_pos (by omega))
    rw [List.map_cons, Tracker.panics, hpanic]
    exact ih (h.take (by omega)) hcalls hsmall

/-! ## What is logged -/

/-- The percentages that are logged when one report comes after the other. -/
def percents : List Report → LoggingProgress → List UInt64
  | [], _ => []
  | r :: reports, p =>
    (p.events r).filterMap ProgressEvent.percent? ++ percents reports (p.take r).1

theorem percents_append (reports reports' : List Report) (p : LoggingProgress) :
    percents (reports ++ reports') p =
      percents reports p ++ percents reports' (tracker.replay reports p) := by
  induction reports generalizing p with
  | nil => rfl
  | cons r reports ih =>
    rw [List.cons_append, percents, percents, ih, List.append_assoc]
    rfl

theorem percents_logProgress (p : LoggingProgress) (n : Nat) :
    percents [.logProgress n] p =
      if p.reported < p.raised n.toUInt64 then [p.raised n.toUInt64 * 10] else [] := by
  rw [percents, percents, events, take_eq, List.append_nil]
  cases hreach : p.reach n.toUInt64 with
  | ok tenth =>
    dsimp only [Except.map]
    split <;> rfl
  | error overflow =>
    have hsame : p.raised n.toUInt64 = p.reported := by rw [raised, hreach]
    rw [hsame, if_neg (UInt64.lt_irrefl _), if_neg (UInt64.lt_irrefl _)]
    rfl

theorem percents_of_raised_eq {p : LoggingProgress} {n : Nat}
    (h : p.raised n.toUInt64 = p.reported) : percents [.logProgress n] p = [] := by
  rw [percents_logProgress, h, if_neg (UInt64.lt_irrefl _)]

theorem percents_cons (call : Call) (calls : List Call) (p : LoggingProgress) :
    percents ((call :: calls).map Call.report) p =
      (if p.reported < p.raised call.amount.toUInt64 then [p.raised call.amount.toUInt64 * 10]
        else []) ++ percents (calls.map Call.report) (p.take call.report).1 := by
  rw [← percents_logProgress]
  exact percents_append [call.report] (calls.map Call.report) p

/-- The last percentage is that of the last tenth. -/
theorem getD_getLast?_percents (calls : List Call) (p : LoggingProgress) :
    (percents (calls.map Call.report) p).getLast?.getD (p.reported * 10) =
      (tracker.replay (calls.map Call.report) p).reported * 10 := by
  induction calls generalizing p with
  | nil => rfl
  | cons call calls ih =>
    have hreported : (p.take call.report).1.reported = p.raised call.amount.toUInt64 := by
      unfold Call.report
      rw [take_logProgress]
    have hsame : ¬ p.reported < p.raised call.amount.toUInt64 →
        p.raised call.amount.toUInt64 = p.reported := fun hnot =>
      UInt64.le_antisymm (UInt64.not_lt.1 hnot) (reported_le_raised p _)
    rw [List.map_cons, replay_cons, ← ih, ← List.map_cons, percents_cons, hreported]
    split
    · rw [List.singleton_append, List.getLast?_cons, Option.getD_some]
    · next hnot => rw [List.nil_append, hsame hnot]

/-- The last percentage that has been logged after `d` of `v` nodes, unless it is zero. -/
theorem getLast?_percents (hprocessed : p.processed = 0) (hreported : p.reported = 0)
    (hsmall : 10 * p.volume.toNat < wordLimit) {calls : List Call}
    (hcalls : Call.total calls ≤ p.volume.toNat)
    (hpos : 0 < 10 * Call.total calls / p.volume.toNat) :
    (percents (calls.map Call.report) p).getLast? =
      some (10 * (10 * Call.total calls / p.volume.toNat)).toUInt64 := by
  have hsome : 0 < p.volume.toNat := by
    by_contra hzero
    rw [Nat.eq_zero_of_not_pos hzero, Nat.div_zero] at hpos
    exact Nat.lt_irrefl 0 hpos
  have hcounts : (tracker.replay (calls.map Call.report) p).Counts p.volume
      (Call.total calls) := by
    rw [← Nat.zero_add (Call.total calls)]
    exact (counts_zero hprocessed hreported).replay (by omega)
  have htenth : (tracker.replay (calls.map Call.report) p).reported.toNat =
      10 * Call.total calls / p.volume.toNat := by
    rw [hcounts.reported_eq (by omega), Nat.max_eq_left hsome]
  have hle : 10 * Call.total calls / p.volume.toNat ≤ 10 := Nat.div_le_of_le_mul (by omega)
  have hlast := getD_getLast?_percents calls p
  have hvalue : (tracker.replay (calls.map Call.report) p).reported * 10 =
      (10 * (10 * Call.total calls / p.volume.toNat)).toUInt64 := by
    rw [← UInt64.toNat_inj, toNat_percent (htenth.trans_le hle), htenth,
      toNat_toUInt64 (by unfold wordLimit; omega)]
  rw [hvalue, hreported] at hlast
  cases hget : (percents (calls.map Call.report) p).getLast? with
  | some percent =>
    rw [hget] at hlast
    exact congrArg some hlast
  | none =>
    rw [hget] at hlast
    have hzero : 0 = (10 * (10 * Call.total calls / p.volume.toNat)).toUInt64.toNat :=
      congrArg UInt64.toNat hlast
    rw [toNat_toUInt64 (by unfold wordLimit; omega)] at hzero
    omega

end LoggingProgress

end Superstep
