import Superstep.Proofs.Progress.Logging

/-!
# The log at all volumes

Volumes and amounts are any words. A call of the log adds two of them and multiplies the sum by ten.
What is done stays within the volume here, so that the sums are words. The products may not be: then
a call panics and logs nothing, although its nodes have been counted, down to nothing at all for a
volume that is done.

Results:
* `Shows.log`, `Shows.logAll`: what one call, and calls one after the other, leave behind in a log.
* `highest_percent`: as long as ten times what is done is a word, no call panics and the highest
  percentage is that of the last tenth that has been reached; then every call panics. A percentage
  is never too high.
* `full_volume_unlogged`: a volume that is done without a single percentage.
-/

namespace Superstep.LoggingProgress

/-- The number of nodes that calls are about together. -/
def total (amounts : List UInt64) : Nat := (amounts.map UInt64.toNat).sum

/-- What the log sees of calls. -/
def calls (amounts : List UInt64) : List Report := amounts.map fun n => .logProgress n.toNat

section

variable {p : LoggingProgress} {volume n : UInt64} {d : Nat} {logged : List UInt64}

/-- What a log shows of a superstep when `d` nodes have been reported and `logged` are the
    percentages so far: the highest of them is that of the last tenth. -/
structure Shows (p : LoggingProgress) (volume : UInt64) (d : Nat) (logged : List UInt64) : Prop
    extends p.Counts volume d where
  highest : (logged.map UInt64.toNat).max? =
    if p.reported.toNat = 0 then none else some (10 * p.reported.toNat)

theorem Shows.le_of_mem (h : p.Shows volume d logged) {percent : UInt64}
    (hmem : percent ∈ logged) : percent.toNat ≤ 10 * p.reported.toNat := by
  have hmem : percent.toNat ∈ logged.map UInt64.toNat := List.mem_map_of_mem hmem
  have hhighest := h.highest
  split_ifs at hhighest
  · rw [List.max?_eq_none_iff] at hhighest
    rw [hhighest] at hmem
    cases hmem
  · exact (List.max?_eq_some_iff.1 hhighest).2 _ hmem

theorem shows_begin (p : LoggingProgress) (volume : UInt64) :
    (p.take (.beginSubTask volume.toNat)).1.Shows volume 0 [] := by
  have hcounts := counts_zero (p := (p.take (.beginSubTask volume.toNat)).1) rfl rfl
  rw [show (p.take (.beginSubTask volume.toNat)).1.volume = volume from UInt64.ofNat_toNat]
    at hcounts
  exact ⟨hcounts, rfl⟩

/-- A call shows more nodes. If it raises the tenth, it logs a percentage above all earlier ones. -/
theorem Shows.log (h : p.Shows volume d logged) (hle : d + n.toNat ≤ max volume.toNat 1) :
    (p.take (.logProgress n.toNat)).1.Shows volume (d + n.toNat)
      (logged ++ percents [.logProgress n.toNat] p) := by
  have hcounts := h.toCounts.take hle
  refine ⟨hcounts, ?_⟩
  have hten : (p.raised n.toNat.toUInt64).toNat ≤ 10 := by
    have hreported := hcounts.reported_le
    rw [take_logProgress] at hreported
    exact hreported.trans (Nat.div_le_of_le_mul (by omega))
  rw [take_logProgress, percents_logProgress]
  show _ = if (p.raised n.toNat.toUInt64).toNat = 0 then none
    else some (10 * (p.raised n.toNat.toUInt64).toNat)
  split_ifs with hraised hzero hzero
  · rw [UInt64.lt_iff_toNat_lt, hzero] at hraised
    exact absurd hraised (Nat.not_lt_zero _)
  · rw [UInt64.lt_iff_toNat_lt] at hraised
    rw [List.map_append, List.max?_eq_some_iff]
    refine ⟨List.mem_append_right _ (List.mem_singleton.2 (toNat_percent hten).symm),
      fun percent hmem => ?_⟩
    rcases List.mem_append.1 hmem with hearlier | hlast
    · obtain ⟨w, hw, rfl⟩ := List.mem_map.1 hearlier
      have := h.le_of_mem hw
      omega
    · obtain rfl : percent = (p.raised n.toNat.toUInt64 * 10).toNat := by simpa using hlast
      exact (toNat_percent hten).le
  all_goals
    have hsame : p.raised n.toNat.toUInt64 = p.reported :=
      UInt64.le_antisymm (UInt64.not_lt.1 hraised) (reported_le_raised p _)
    rw [hsame] at hzero
    rw [List.append_nil, h.highest]
  · exact if_pos hzero
  · rw [if_neg hzero, hsame]

end

/-! ## Calls one after the other -/

section

variable {p : LoggingProgress} {volume : UInt64} {d : Nat} {logged amounts : List UInt64}

theorem total_cons (n : UInt64) (amounts : List UInt64) :
    total (n :: amounts) = n.toNat + total amounts :=
  List.sum_cons

theorem total_take_le (amounts : List UInt64) (k : Nat) :
    total (amounts.take k) ≤ total amounts := by
  unfold total
  conv_rhs => rw [← List.take_append_drop k amounts]
  rw [List.map_append, List.sum_append_nat]
  exact Nat.le_add_right _ _

theorem total_take_succ {k : Nat} {n : UInt64} (h : amounts[k]? = some n) :
    total (amounts.take (k + 1)) = total (amounts.take k) + n.toNat := by
  rw [List.take_add_one, h]
  unfold total
  rw [List.map_append, List.sum_append_nat]
  rfl

theorem percents_calls_cons (n : UInt64) (amounts : List UInt64) (p : LoggingProgress) :
    percents (calls (n :: amounts)) p =
      percents [.logProgress n.toNat] p ++
        percents (calls amounts) (p.take (.logProgress n.toNat)).1 :=
  percents_append [.logProgress n.toNat] (calls amounts) p

theorem Shows.logAll (h : p.Shows volume d logged) (hle : d + total amounts ≤ max volume.toNat 1) :
    (tracker.replay (calls amounts) p).Shows volume (d + total amounts)
      (logged ++ percents (calls amounts) p) := by
  induction amounts generalizing p d logged with
  | nil =>
    show p.Shows volume d (logged ++ [])
    rwa [List.append_nil]
  | cons n amounts ih =>
    rw [total_cons, ← Nat.add_assoc] at hle ⊢
    rw [percents_calls_cons, ← List.append_assoc]
    exact ih (h.log (by omega)) hle

end

/-! ## All volumes -/

/-- Any volume, and calls that stay within it, after whatever a log has seen before. A call panics
    exactly if ten times what is then done is no word, with the text of a product that overflows.
    Every call counts its nodes, and no percentage is ever higher than that of the last tenth that
    has been reached. As long as ten times what is done is a word, the highest percentage is that of
    the last tenth, if one has been reached, so that a hundred has been logged when a volume is
    done. -/
theorem highest_percent (p₀ : LoggingProgress) (volume : UInt64) (amounts : List UInt64)
    (hle : total amounts ≤ max volume.toNat 1) :
    let p := (p₀.take (.beginSubTask volume.toNat)).1
    let done (k : Nat) := total (amounts.take k)
    let after (k : Nat) := tracker.replay (calls (amounts.take k)) p
    let logged (k : Nat) := percents (calls (amounts.take k)) p
    let tenths (k : Nat) := 10 * done k / max volume.toNat 1
    (∀ k n, amounts[k]? = some n → (tracker.take (.logProgress n.toNat) (after k)).2 =
      if 10 * done (k + 1) < wordLimit then none
      else some (.text "attempt to multiply with overflow")) ∧
    (∀ k, (after k).processed.toNat = done k) ∧
    (∀ k, ∀ percent ∈ logged k, percent.toNat ≤ 10 * tenths k) ∧
    (∀ k, 10 * done k < wordLimit → ((logged k).map UInt64.toNat).max? =
      if tenths k = 0 then none else some (10 * tenths k)) ∧
    (0 < volume.toNat → total amounts = volume.toNat → 10 * volume.toNat < wordLimit →
      100 ∈ percents (calls amounts) p) := by
  intro p done after logged tenths
  have hshows (k : Nat) : (after k).Shows volume (done k) (logged k) := by
    have hwithin : 0 + done k ≤ max volume.toNat 1 :=
      (Nat.zero_add _).trans_le ((total_take_le amounts k).trans hle)
    have hlogged := (shows_begin p₀ volume).logAll hwithin
    rwa [Nat.zero_add, List.nil_append] at hlogged
  have hhighest (k : Nat) (hsmall : 10 * done k < wordLimit) :
      ((logged k).map UInt64.toNat).max? =
        if tenths k = 0 then none else some (10 * tenths k) := by
    rw [(hshows k).highest, (hshows k).reported_eq hsmall]
  refine ⟨fun k n hn => ?_, fun k => (hshows k).processed, fun k percent hpercent => ?_, hhighest,
    fun hpos hdone hsmall => ?_⟩
  · have hnext : done (k + 1) = done k + n.toNat := total_take_succ hn
    have hwithin := (total_take_le amounts (k + 1)).trans hle
    rw [hnext]
    exact (hshows k).toCounts.panic?_eq (hnext.symm.trans_le hwithin)
  · exact ((hshows k).le_of_mem hpercent).trans (Nat.mul_le_mul_left 10 (hshows k).reported_le)
  · have hall : amounts.take amounts.length = amounts := List.take_length
    have hlast := hhighest amounts.length (by
      show 10 * total (amounts.take amounts.length) < wordLimit
      rw [hall, hdone]
      exact hsmall)
    have hten : tenths amounts.length = 10 := by
      show 10 * total (amounts.take amounts.length) / max volume.toNat 1 = 10
      rw [hall, hdone, Nat.max_eq_left hpos]
      exact Nat.mul_div_cancel _ hpos
    rw [hten, if_neg (by decide), List.max?_eq_some_iff] at hlast
    obtain ⟨w, hw, hhundred⟩ := List.mem_map.1 hlast.1
    obtain rfl : w = 100 := UInt64.toNat_inj.1 hhundred
    exact hall ▸ hw

/-- The largest volume whose tenfold is a word, done in two steps: the first one ends just before
    the first tenth. -/
theorem highest_percent_twoSteps :
    let p := ((new "task").take (.beginSubTask 1844674407370955161)).1
    let amounts : List UInt64 := [184467440737095516, 1660206966633859645]
    total amounts ≤ 1844674407370955161 ∧
      (tracker.take (.logProgress 184467440737095516) p).2 = none ∧
      percents (calls (amounts.take 1)) p = [] ∧ 100 ∈ percents (calls amounts) p := by
  intro p amounts
  obtain ⟨hpanics, -, -, hhighest, hhundred⟩ :=
    highest_percent (new "task") 1844674407370955161 amounts (by decide)
  refine ⟨by decide, (hpanics 0 184467440737095516 rfl).trans (if_pos (by decide)), ?_,
    hhundred (by decide) (by decide) (by decide)⟩
  have hnone := (hhighest 1 (by decide)).trans (if_pos (by decide))
  rw [List.max?_eq_none_iff, List.map_eq_nil_iff] at hnone
  exact hnone

/-- The largest volume of all, done in one call: the product overflows, so that the call panics, and
    nothing is logged where a hundred is due. -/
theorem full_volume_unlogged :
    let p := ((new "task").take (.beginSubTask 18446744073709551615)).1
    let amounts : List UInt64 := [18446744073709551615]
    total amounts ≤ max p.volume.toNat 1 ∧
      10 * (10 * total amounts / max p.volume.toNat 1) = 100 ∧
      tracker.panics (calls amounts) p = [.text "attempt to multiply with overflow"] ∧
      percents (calls amounts) p = [] := by
  decide

end Superstep.LoggingProgress
