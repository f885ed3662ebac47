import Superstep.Proofs.Progress.Logging

/-!
# Calls of the log that overlap

A call of the log is not one action: it adds its nodes to those that are done, it reads the volume,
and it raises the last tenth that has been reported to its own; if it has raised it, it writes a
line. A sum or a product that overflows ends the call, and its worker fails. Here the workers of a
superstep take these steps one by one, so that calls of different workers overlap (`LogCrew.Step`),
and a worker with an earlier tenth may come after one with a later tenth.

An execution of this kind follows one in which every call is a single action, taken at the moment
at which its nodes are added (`LogCrew.Follows`). The two differ in the last tenth that has been
reported as long as a call is under way, and agree when the workers are done.

Results:
* `LogCrew.traces_of_none`: between calls, the workers are where single actions would have led them.
* `LogCrew.logged_of_steps`: which tenths win, and which lines are written.
* `LogCrew.closed_of_steps`: the log of a superstep when its workers are done.
-/

namespace Superstep

/-- Where a worker stands in a call of the log. -/
inductive LogCall where
  /-- The nodes have been added; `done` is what they have come to. -/
  | added (done : UInt64)
  /-- The volume has been read. -/
  | measured (tenth : UInt64)
  /-- The tenth is the last one reported. Its line is still to be written. -/
  | won (tenth : UInt64)

namespace LogCall

/-- The tenth that a call comes to. -/
def tenth? (volume : UInt64) : LogCall → Option UInt64
  | .added done => LoggingProgress.tenth? volume done
  | .measured tenth | .won tenth => some tenth

/-- The panic in which a call ends: its nodes have been added, so that only the product can
    overflow. -/
def panic? (volume : UInt64) (call : LogCall) : Option PanicPayload :=
  match call.tenth? volume with
  | none => some Overflow.product.payload
  | some _ => none

end LogCall

/-- What the calls of a superstep have done, in order. -/
structure LogBook where
  /-- The calls that have added their nodes. -/
  calls : List Call
  /-- The tenths that have been raised. -/
  wins : List UInt64
  /-- The tenths whose lines have been written. -/
  written : List UInt64

/-- The log of a superstep with the given volume, in the end. -/
structure LogBook.Closed (volume : UInt64) (b : LogBook) : Prop where
  increasing : b.wins.Pairwise (· < ·)
  tenth : ∀ tenth ∈ b.wins, 0 < tenth.toNat ∧ tenth.toNat ≤ 10
  perm : b.written.Perm b.wins
  ten : 0 < volume.toNat → Call.total b.calls = volume.toNat → 10 ∈ b.wins

namespace LogBook

/-- The percentages of the lines, in the order in which they are written. -/
def percents (b : LogBook) : List UInt64 := b.written.map (· * 10)

/-- The percentages of the lines, in the order in which their tenths win. -/
def raised (b : LogBook) : List UInt64 := b.wins.map (· * 10)

namespace Closed

variable {volume : UInt64} {b : LogBook}

theorem toNat_percent (h : b.Closed volume) {tenth : UInt64} (hmem : tenth ∈ b.wins) :
    (tenth * 10).toNat = 10 * tenth.toNat :=
  LoggingProgress.toNat_percent (h.tenth tenth hmem).2

theorem raised_increasing (h : b.Closed volume) : b.raised.Pairwise (· < ·) := by
  refine List.pairwise_map.2 (h.increasing.imp_of_mem fun ha hb hlt => ?_)
  rw [UInt64.lt_iff_toNat_lt] at hlt ⊢
  rw [h.toNat_percent ha, h.toNat_percent hb]
  exact Nat.mul_lt_mul_of_pos_left hlt (by decide)

theorem percents_perm (h : b.Closed volume) : b.percents.Perm b.raised := h.perm.map _

theorem nodup_percents (h : b.Closed volume) : b.percents.Nodup :=
  h.percents_perm.nodup_iff.2 (h.raised_increasing.imp UInt64.ne_of_lt)

theorem exists_of_mem_percents (h : b.Closed volume) {percent : UInt64}
    (hmem : percent ∈ b.percents) : ∃ j, 1 ≤ j ∧ j ≤ 10 ∧ percent.toNat = 10 * j := by
  obtain ⟨tenth, hwin, rfl⟩ := List.mem_map.1 (h.percents_perm.mem_iff.1 hmem)
  obtain ⟨hpos, hle⟩ := h.tenth tenth hwin
  exact ⟨tenth.toNat, hpos, hle, h.toNat_percent hwin⟩

theorem count_percents (h : b.Closed volume) (hpos : 0 < volume.toNat)
    (htotal : Call.total b.calls = volume.toNat) : b.percents.count 100 = 1 := by
  refine List.count_eq_one_of_mem h.nodup_percents (h.percents_perm.mem_iff.2 ?_)
  exact List.mem_map.2 ⟨10, h.ten hpos htotal, rfl⟩

end Closed

end LogBook

/-- The workers of a superstep, what they share, and the calls that are under way. -/
structure LogCrew (V M : Type) where
  crew : Crew V M LoggingProgress
  call : Nat → Option LogCall
  book : LogBook

namespace Crew

variable {V M : Type}

/-- The workers with another state of the log. -/
def withLog (c : Crew V M LoggingProgress) (p : LoggingProgress) : Crew V M LoggingProgress :=
  { c with shared := { c.shared with tracker := p } }

/-- The calls of a superstep do not panic if ten times the number of its nodes is a word. -/
theorem Traces.panics_of_log {W : Type} [Message M] {job : Job W V M LoggingProgress} {t : Nat}
    {workers : List Worker} {store : NodeStore V M} {p : LoggingProgress}
    {c : Crew V M LoggingProgress} {calls : List Call} {f : Frame V M}
    (hlog : job.tracker = LoggingProgress.tracker)
    (h : Traces job t workers store p c calls) (ht : Team job.program workers)
    (hf : f.Proper job.program) (hstore : store.Holds job.program t f)
    (hbatch : 0 < job.batchSize) (hprocessed : p.processed = 0) (hreported : p.reported = 0)
    (hvolume : p.volume.toNat = f.active.card) (hsmall : 10 * p.volume.toNat < wordLimit) :
    job.tracker.panics (calls.map Call.report) p = [] := by
  refine h.panics_eq_nil ht hf hstore hbatch fun calls hcalls => ?_
  rw [hlog]
  exact (LoggingProgress.counts_zero hprocessed hreported).panics_eq_nil (by omega) (by omega)

/-- The workers when worker `k` has come back from its call, or has failed in it. -/
def answer {T : Type} (c : Crew V M T) (t k : Nat) (panic : Option PanicPayload) : Crew V M T :=
  { c with hands := Function.update c.hands k ((c.hands k).answered t panic) }

end Crew

namespace LogCrew

variable {W V M : Type}

/-- The state of the log. -/
def log (x : LogCrew V M) : LoggingProgress := x.crew.shared.tracker

/-- The start of a superstep. -/
def start (store : NodeStore V M) (p : LoggingProgress) : LogCrew V M :=
  ⟨.start store p, fun _ => none, ⟨[], [], []⟩⟩

/-- Some worker takes its next action, or the next step of its call. -/
inductive Step [Message M] (job : Job W V M LoggingProgress) (t : Nat) (workers : List Worker) :
    LogCrew V M → LogCrew V M → Prop
  | act {x : LogCrew V M} {k : Nat} {w : Worker} {h : Hand V M} {s : Shared V M LoggingProgress} :
    workers[k]? = some w → x.call k = none → (x.crew.hands k).due? job.batchSize = none →
      w.act job t (x.crew.hands k) x.crew.shared = some (h, s) →
      Step job t workers x { x with crew := ⟨Function.update x.crew.hands k h, s⟩ }
  | add {x : LogCrew V M} {k n : Nat} {done : UInt64} :
    k < workers.length → x.call k = none → (x.crew.hands k).due? job.batchSize = some n →
      Word.add? x.log.processed n.toUInt64 = some done →
      Step job t workers x
        { crew := x.crew.withLog { x.log with processed := x.log.processed + n.toUInt64 }
          call := Function.update x.call k (some (.added done))
          book := { x.book with calls := x.book.calls ++ [⟨k, n⟩] } }
  | overflow {x : LogCrew V M} {k n : Nat} :
    k < workers.length → x.call k = none → (x.crew.hands k).due? job.batchSize = some n →
      Word.add? x.log.processed n.toUInt64 = none →
      Step job t workers x
        { crew := (x.crew.withLog { x.log with processed := x.log.processed + n.toUInt64 }).answer t
            k (some Overflow.sum.payload)
          call := x.call
          book := { x.book with calls := x.book.calls ++ [⟨k, n⟩] } }
  | measure {x : LogCrew V M} {k : Nat} {done tenth : UInt64} :
    x.call k = some (.added done) → LoggingProgress.tenth? x.log.volume done = some tenth →
      Step job t workers x
        { x with call := Function.update x.call k (some (.measured tenth)) }
  | fail {x : LogCrew V M} {k : Nat} {done : UInt64} :
    x.call k = some (.added done) → LoggingProgress.tenth? x.log.volume done = none →
      Step job t workers x
        { x with
          crew := x.crew.answer t k (some Overflow.product.payload)
          call := Function.update x.call k none }
  | win {x : LogCrew V M} {k : Nat} {tenth : UInt64} :
    x.call k = some (.measured tenth) → x.log.reported < tenth →
      Step job t workers x
        { crew := x.crew.withLog { x.log with reported := tenth }
          call := Function.update x.call k (some (.won tenth))
          book := { x.book with wins := x.book.wins ++ [tenth] } }
  | lose {x : LogCrew V M} {k : Nat} {tenth : UInt64} :
    x.call k = some (.measured tenth) → ¬ x.log.reported < tenth →
      Step job t workers x
        { x with crew := x.crew.answer t k none, call := Function.update x.call k none }
  | write {x : LogCrew V M} {k : Nat} {tenth : UInt64} :
    x.call k = some (.won tenth) →
      Step job t workers x
        { crew := x.crew.answer t k none
          call := Function.update x.call k none
          book := { x.book with written := x.book.written ++ [tenth] } }

/-! ## Calls as single actions -/

/-- Where a worker is as soon as it has come back from the call that is under way, or has failed
    in it. -/
def handOf (t : Nat) (x : LogCrew V M) (k : Nat) : Hand V M :=
  match x.call k with
  | none => x.crew.hands k
  | some call => (x.crew.hands k).answered t (call.panic? x.log.volume)

/-- The workers `c`, whose calls are single actions, are where the workers `x` are as soon as those
    have come back from the calls that are under way, or have failed in them. -/
structure Follows (t batchSize count : Nat) (x : LogCrew V M) (c : Crew V M LoggingProgress) :
    Prop where
  hands : ∀ k, c.hands k = x.handOf t k
  shared : c.shared = (x.crew.withLog { x.log with reported := c.shared.tracker.reported }).shared
  pending : ∀ k call, x.call k = some call →
    k < count ∧ (∃ n, (x.crew.hands k).due? batchSize = some n) ∧
      ∀ tenth, call.tenth? x.log.volume = some tenth → tenth ≤ c.shared.tracker.reported
  won : ∀ k tenth, x.call k = some (.won tenth) → tenth ≤ x.log.reported
  le : x.log.reported ≤ c.shared.tracker.reported
  reached : c.shared.tracker.reported ≤ x.log.reported ∨
    ∃ k call tenth, x.call k = some call ∧ call.tenth? x.log.volume = some tenth ∧
      c.shared.tracker.reported ≤ tenth

variable {t batchSize count : Nat} {x : LogCrew V M} {c : Crew V M LoggingProgress}

theorem handOf_of_none {k : Nat} (h : x.call k = none) : x.handOf t k = x.crew.hands k := by
  rw [handOf, h]

theorem handOf_of_some {k : Nat} {call : LogCall} (h : x.call k = some call) :
    x.handOf t k = (x.crew.hands k).answered t (call.panic? x.log.volume) := by
  rw [handOf, h]

theorem ne_of_call {j k : Nat} {call : LogCall} (hk : x.call k = none) (hj : x.call j = some call) :
    j ≠ k := by
  rintro rfl
  cases hk.symm.trans hj

theorem of_update_eq_some {calls : Nat → Option LogCall} {j k : Nat} {new : Option LogCall}
    {call : LogCall} (h : Function.update calls k new j = some call) :
    (j = k ∧ new = some call) ∨ (j ≠ k ∧ calls j = some call) := by
  by_cases hjk : j = k
  · subst hjk
    rw [Function.update_self] at h
    exact .inl ⟨rfl, h⟩
  · rw [Function.update_of_ne hjk] at h
    exact .inr ⟨hjk, h⟩

theorem follows_start (store : NodeStore V M) (p : LoggingProgress) :
    (start store p).Follows t batchSize count (.start store p) where
  hands := fun _ => rfl
  shared := rfl
  pending := nofun
  won := nofun
  le := UInt64.le_refl _
  reached := .inl (UInt64.le_refl _)

namespace Follows

theorem hand_of_none (hx : x.Follows t batchSize count c) {k : Nat} (hk : x.call k = none) :
    c.hands k = x.crew.hands k := by
  rw [hx.hands, handOf_of_none hk]

/-- A worker that comes back from a call, or fails in it, does not change what its call has done
    before. -/
theorem answer (hx : x.Follows t batchSize count c) {k : Nat} {call : LogCall}
    (hcall : x.call k = some call)
    (hle : ∀ tenth, call.tenth? x.log.volume = some tenth → tenth ≤ x.log.reported)
    {panic : Option PanicPayload} (hpanic : call.panic? x.log.volume = panic) (book : LogBook) :
    Follows t batchSize count ⟨x.crew.answer t k panic, Function.update x.call k none, book⟩
      c where
  hands := by
    intro j
    rw [hx.hands]
    by_cases hjk : j = k
    · subst hjk
      rw [handOf_of_some hcall, hpanic, handOf_of_none (Function.update_self ..)]
      exact (Function.update_self (f := x.crew.hands) ..).symm
    · unfold handOf Crew.answer
      simp only [Function.update_of_ne hjk]
      rfl
  shared := hx.shared
  pending := by
    intro j other hother
    obtain ⟨-, ⟨⟩⟩ | ⟨hjk, hother⟩ := of_update_eq_some hother
    obtain ⟨hlt, hdue, htenth⟩ := hx.pending j other hother
    refine ⟨hlt, ?_, htenth⟩
    show ∃ n, (Function.update x.crew.hands k _ j).due? batchSize = some n
    rw [Function.update_of_ne hjk]
    exact hdue
  won := by
    intro j tenth hwon
    obtain ⟨-, ⟨⟩⟩ | ⟨-, hwon⟩ := of_update_eq_some hwon
    exact hx.won j tenth hwon
  le := hx.le
  reached := by
    rcases hx.reached with hdone | ⟨j, other, tenth, hother, htenth, hreach⟩
    · exact .inl hdone
    · by_cases hjk : j = k
      · subst hjk
        cases hcall.symm.trans hother
        exact .inl (UInt64.le_trans hreach (hle tenth htenth))
      · exact .inr ⟨j, other, tenth, (Function.update_of_ne hjk ..).trans hother, htenth, hreach⟩

/-- A call that goes on with the same tenth may raise the last one that has been reported. -/
theorem proceed (hx : x.Follows t batchSize count c) {k : Nat} {call : LogCall}
    (hcall : x.call k = some call) (call' : LogCall)
    (hsame : call'.tenth? x.log.volume = call.tenth? x.log.volume)
    {reported : UInt64} (hge : x.log.reported ≤ reported)
    (hle : reported ≤ c.shared.tracker.reported)
    (hwon : ∀ tenth, call' = .won tenth → tenth ≤ reported) (book : LogBook) :
    Follows t batchSize count
      ⟨x.crew.withLog { x.log with reported }, Function.update x.call k (some call'), book⟩ c where
  hands := by
    intro j
    rw [hx.hands]
    by_cases hjk : j = k
    · subst hjk
      rw [handOf_of_some hcall, handOf_of_some (Function.update_self ..), LogCall.panic?, ← hsame]
      rfl
    · unfold handOf
      simp only [Function.update_of_ne hjk]
      rfl
  shared := hx.shared
  pending := by
    intro j other hother
    obtain ⟨rfl, ⟨⟩⟩ | ⟨-, hother⟩ := of_update_eq_some hother
    · obtain ⟨hlt, hdue, htenth⟩ := hx.pending j call hcall
      exact ⟨hlt, hdue, fun tenth h => htenth tenth (hsame.symm.trans h)⟩
    · exact hx.pending j other hother
  won := by
    intro j tenth hj
    obtain ⟨-, hself⟩ | ⟨-, hj⟩ := of_update_eq_some hj
    · exact hwon tenth (Option.some.inj hself)
    · exact UInt64.le_trans (hx.won j tenth hj) hge
  le := hle
  reached := by
    rcases hx.reached with hdone | ⟨j, other, tenth, hother, htenth, hreach⟩
    · exact .inl (UInt64.le_trans hdone hge)
    · by_cases hjk : j = k
      · subst hjk
        cases hcall.symm.trans hother
        exact .inr ⟨j, call', tenth, Function.update_self .., hsame.trans htenth, hreach⟩
      · exact .inr ⟨j, other, tenth, (Function.update_of_ne hjk ..).trans hother, htenth, hreach⟩

theorem shared_eq (hx : x.Follows t batchSize count c) :
    c.shared = { x.crew.shared with tracker := c.shared.tracker } := by
  rw [hx.shared]
  rfl

theorem tracker_eq (hx : x.Follows t batchSize count c) :
    c.shared.tracker = { x.log with reported := c.shared.tracker.reported } :=
  congrArg Shared.tracker hx.shared

theorem take_eq (hx : x.Follows t batchSize count c) (n : Nat) :
    (c.shared.tracker.take (.logProgress n)).1 =
      { x.log with
        processed := x.log.processed + n.toUInt64
        reported := c.shared.tracker.raised n.toUInt64 } := by
  obtain ⟨raised, hraised⟩ : ∃ raised, c.shared.tracker.raised n.toUInt64 = raised := ⟨_, rfl⟩
  rw [LoggingProgress.take_logProgress, hraised, hx.tracker_eq]

variable [Message M] {job : Job W V M LoggingProgress} {workers : List Worker}

/-- An action that is no call is the same action. -/
theorem act (hx : x.Follows t job.batchSize workers.length c) {k : Nat} {w : Worker}
    (hcall : x.call k = none) (hdue : (x.crew.hands k).due? job.batchSize = none) {h : Hand V M}
    {s : Shared V M LoggingProgress}
    (hact : w.act job t (x.crew.hands k) x.crew.shared = some (h, s)) :
    w.act job t (c.hands k) c.shared = some (h, { s with tracker := c.shared.tracker }) ∧
      Follows t job.batchSize workers.length
        { x with crew := ⟨Function.update x.crew.hands k h, s⟩ }
        ⟨Function.update c.hands k h, { s with tracker := c.shared.tracker }⟩ := by
  have hsame : s.tracker = x.log := Worker.tracker_of_not_due hdue hact
  have hlog : LogCrew.log { x with crew := ⟨Function.update x.crew.hands k h, s⟩ } = x.log := hsame
  constructor
  · rw [hx.hand_of_none hcall, hx.shared_eq, Worker.act_of_not_due hdue, hact]
    rfl
  · exact {
      hands := by
        intro j
        by_cases hjk : j = k
        · subst hjk
          have hself : handOf t { x with crew := ⟨Function.update x.crew.hands j h, s⟩ } j =
              Function.update x.crew.hands j h j := handOf_of_none hcall
          rw [hself, Function.update_self]
          exact Function.update_self ..
        · show Function.update c.hands k h j = _
          rw [Function.update_of_ne hjk, hx.hands]
          unfold handOf
          rw [hlog]
          simp only [Function.update_of_ne hjk]
      shared := by
        show ({ s with tracker := c.shared.tracker } : Shared V M LoggingProgress) =
          { s with tracker := { s.tracker with reported := c.shared.tracker.reported } }
        rw [hsame, ← hx.tracker_eq]
      pending := by
        intro j call hj
        have hjk := ne_of_call hcall hj
        obtain ⟨hlt, hdue, htenth⟩ := hx.pending j call hj
        refine ⟨hlt, ?_, ?_⟩
        · show ∃ n, (Function.update x.crew.hands k h j).due? job.batchSize = some n
          rw [Function.update_of_ne hjk]
          exact hdue
        · rw [hlog]
          exact htenth
      won := by
        rw [hlog]
        exact hx.won
      le := by
        rw [hlog]
        exact hx.le
      reached := by
        rw [hlog]
        exact hx.reached }

omit [Message M]

/-- A call counts from the moment at which its nodes are added. -/
theorem add (hx : x.Follows t job.batchSize workers.length c) {k n : Nat} {done : UInt64}
    (hk : k < workers.length) (hcall : x.call k = none)
    (hdue : (x.crew.hands k).due? job.batchSize = some n)
    (hadd : Word.add? x.log.processed n.toUInt64 = some done) :
    Follows t job.batchSize workers.length
      { crew := x.crew.withLog { x.log with processed := x.log.processed + n.toUInt64 }
        call := Function.update x.call k (some (.added done))
        book := { x.book with calls := x.book.calls ++ [⟨k, n⟩] } }
      ⟨Function.update c.hands k
          ((c.hands k).answered t (c.shared.tracker.panic? (.logProgress n))),
        { c.shared with tracker := (c.shared.tracker.take (.logProgress n)).1 }⟩ := by
  have hvolume : c.shared.tracker.volume = x.log.volume := by rw [hx.tracker_eq]
  have hprocessed : c.shared.tracker.processed = x.log.processed := by rw [hx.tracker_eq]
  have hreach := LoggingProgress.reach_of_add? (hprocessed.symm ▸ hadd)
  rw [hvolume] at hreach
  have hpanic : c.shared.tracker.panic? (.logProgress n) =
      (LogCall.added done).panic? x.log.volume := by
    rw [LoggingProgress.panic?_logProgress, hreach]
    unfold LogCall.panic? LogCall.tenth?
    dsimp only
    cases LoggingProgress.tenth? x.log.volume done <;> rfl
  have hle := LoggingProgress.reported_le_raised c.shared.tracker n.toUInt64
  rw [hx.take_eq, hpanic]
  exact {
    hands := by
      intro j
      by_cases hjk : j = k
      · subst hjk
        rw [handOf_of_some (Function.update_self ..), hx.hand_of_none hcall]
        exact Function.update_self ..
      · show Function.update c.hands k _ j = _
        rw [Function.update_of_ne hjk, hx.hands]
        unfold handOf
        simp only [Function.update_of_ne hjk]
        rfl
    shared := by
      rw [hx.shared_eq]
      rfl
    pending := by
      intro j call hj
      obtain ⟨rfl, ⟨⟩⟩ | ⟨-, hj⟩ := of_update_eq_some hj
      · refine ⟨hk, ⟨n, hdue⟩, fun tenth htenth => ?_⟩
        rw [show LoggingProgress.tenth? x.log.volume done = some tenth from htenth] at hreach
        exact (LoggingProgress.raised_of_reach hreach).1
      · obtain ⟨hlt, hdue, htenth⟩ := hx.pending j call hj
        exact ⟨hlt, hdue, fun tenth h => UInt64.le_trans (htenth tenth h) hle⟩
    won := by
      intro j tenth hj
      obtain ⟨-, ⟨⟩⟩ | ⟨-, hj⟩ := of_update_eq_some hj
      exact hx.won j tenth hj
    le := UInt64.le_trans hx.le hle
    reached := by
      have hkept (heq : c.shared.tracker.raised n.toUInt64 = c.shared.tracker.reported) :
          c.shared.tracker.raised n.toUInt64 ≤ x.log.reported ∨ ∃ j call tenth,
            Function.update x.call k (some (LogCall.added done)) j = some call ∧
              call.tenth? x.log.volume = some tenth ∧
                c.shared.tracker.raised n.toUInt64 ≤ tenth := by
        rw [heq]
        refine hx.reached.imp_right fun ⟨j, call, tenth, hj, htenth⟩ => ?_
        have hjk := ne_of_call hcall hj
        exact ⟨j, call, tenth, (Function.update_of_ne hjk ..).trans hj, htenth⟩
      cases htenth : LoggingProgress.tenth? x.log.volume done with
      | none =>
        rw [htenth] at hreach
        exact hkept (by rw [LoggingProgress.raised, hreach])
      | some tenth =>
        rw [htenth] at hreach
        obtain ⟨-, heq | heq⟩ := LoggingProgress.raised_of_reach hreach
        · exact .inr ⟨k, .added done, tenth, Function.update_self .., htenth,
            heq ▸ UInt64.le_refl _⟩
        · exact hkept heq }

/-- A call whose sum overflows is a single action. -/
theorem overflow (hx : x.Follows t job.batchSize workers.length c) {k n : Nat}
    (hcall : x.call k = none) (hadd : Word.add? x.log.processed n.toUInt64 = none) :
    Follows t job.batchSize workers.length
      { crew := (x.crew.withLog { x.log with processed := x.log.processed + n.toUInt64 }).answer t
          k (some Overflow.sum.payload)
        call := x.call
        book := { x.book with calls := x.book.calls ++ [⟨k, n⟩] } }
      ⟨Function.update c.hands k
          ((c.hands k).answered t (c.shared.tracker.panic? (.logProgress n))),
        { c.shared with tracker := (c.shared.tracker.take (.logProgress n)).1 }⟩ := by
  have hprocessed : c.shared.tracker.processed = x.log.processed := by rw [hx.tracker_eq]
  have hreach : c.shared.tracker.reach n.toUInt64 = .error .sum := by
    rw [LoggingProgress.reach, hprocessed, hadd]
  have hpanic : c.shared.tracker.panic? (.logProgress n) = some Overflow.sum.payload := by
    rw [LoggingProgress.panic?_logProgress, hreach]
  have hraised : c.shared.tracker.raised n.toUInt64 = c.shared.tracker.reported := by
    rw [LoggingProgress.raised, hreach]
  rw [hx.take_eq, hraised, hpanic]
  have hhand : ∀ j ≠ k, ((x.crew.withLog { x.log with
      processed := x.log.processed + n.toUInt64 }).answer t k
        (some Overflow.sum.payload)).hands j = x.crew.hands j :=
    fun j hjk => Function.update_of_ne hjk ..
  exact {
    hands := by
      intro j
      by_cases hjk : j = k
      · subst hjk
        have hself : handOf t
            { crew := (x.crew.withLog { x.log with
                processed := x.log.processed + n.toUInt64 }).answer t j (some Overflow.sum.payload)
              call := x.call
              book := { x.book with calls := x.book.calls ++ [⟨j, n⟩] } } j =
            Function.update x.crew.hands j ((x.crew.hands j).answered t
              (some Overflow.sum.payload)) j := handOf_of_none hcall
        rw [hself, Function.update_self, ← hx.hand_of_none hcall]
        exact Function.update_self ..
      · show Function.update c.hands k _ j = _
        rw [Function.update_of_ne hjk, hx.hands]
        unfold handOf
        rw [hhand j hjk]
        rfl
    shared := by
      rw [hx.shared_eq]
      rfl
    pending := by
      intro j call hj
      have hjk := ne_of_call hcall hj
      obtain ⟨hlt, hdue, htenth⟩ := hx.pending j call hj
      exact ⟨hlt, by rw [hhand j hjk]; exact hdue, htenth⟩
    won := hx.won
    le := hx.le
    reached := hx.reached }

end Follows

/-- Whatever the workers do next, they still follow an execution in which calls are single
    actions. -/
theorem Follows.step [Message M] {job : Job W V M LoggingProgress} {workers : List Worker}
    {store : NodeStore V M} {p : LoggingProgress} {x' : LogCrew V M}
    (hlog : job.tracker = LoggingProgress.tracker)
    (hx : x.Follows t job.batchSize workers.length c)
    (hc : Crew.Traces job t workers store p c x.book.calls) (hstep : Step job t workers x x') :
    ∃ c', Crew.Traces job t workers store p c' x'.book.calls ∧
      x'.Follows t job.batchSize workers.length c' := by
  have hcalled {k n : Nat} (hk : k < workers.length) (hcall : x.call k = none)
      (hdue : (x.crew.hands k).due? job.batchSize = some n) :
      Crew.Traces job t workers store p
        ⟨Function.update c.hands k
            ((c.hands k).answered t (c.shared.tracker.panic? (.logProgress n))),
          { c.shared with tracker := (c.shared.tracker.take (.logProgress n)).1 }⟩
        (x.book.calls ++ [⟨k, n⟩]) := by
    have hact := Worker.act_of_due (w := workers[k]) (t := t) (s := c.shared)
      ((congrArg (Hand.due? job.batchSize) (hx.hand_of_none hcall)).trans hdue)
    have htraces := hc.act (List.getElem?_eq_getElem hk) hact
    rw [hlog, congrArg (Hand.due? job.batchSize) (hx.hand_of_none hcall), hdue] at htraces
    exact htraces
  cases hstep with
  | act hw hcall hdue hact =>
    obtain ⟨hact', hx'⟩ := hx.act hcall hdue hact
    have htraces := hc.act hw hact'
    rw [hx.hand_of_none hcall, hdue] at htraces
    exact ⟨_, by simpa [Call.due] using htraces, hx'⟩
  | add hk hcall hdue hadd => exact ⟨_, hcalled hk hcall hdue, hx.add hk hcall hdue hadd⟩
  | overflow hk hcall hdue hadd => exact ⟨_, hcalled hk hcall hdue, hx.overflow hcall hadd⟩
  | measure hcall htenth =>
    exact ⟨c, hc, hx.proceed hcall (.measured _) htenth.symm (UInt64.le_refl _) hx.le (by simp)
      x.book⟩
  | @fail k done hcall htenth =>
    have hnone : (LogCall.added done).tenth? x.log.volume = none := htenth
    refine ⟨c, hc, hx.answer hcall (fun tenth h => ?_) ?_ x.book⟩
    · cases hnone.symm.trans h
    · rw [LogCall.panic?, hnone]
  | @win k tenth hcall hlt =>
    refine ⟨c, hc, hx.proceed hcall (.won tenth) rfl (UInt64.le_of_lt hlt)
      ((hx.pending k _ hcall).2.2 tenth rfl) ?_ _⟩
    rintro _ ⟨⟩
    exact UInt64.le_refl _
  | lose hcall hnot =>
    refine ⟨c, hc, hx.answer hcall ?_ rfl x.book⟩
    rintro _ ⟨⟩
    exact UInt64.not_lt.1 hnot
  | write hcall =>
    refine ⟨c, hc, hx.answer hcall ?_ rfl _⟩
    rintro _ ⟨⟩
    exact hx.won _ _ hcall

section

variable [Message M] {job : Job W V M LoggingProgress} {workers : List Worker}
  {store : NodeStore V M} {p : LoggingProgress} {x' : LogCrew V M}

theorem exists_follows (hlog : job.tracker = LoggingProgress.tracker)
    (hsteps : Relation.ReflTransGen (Step job t workers) (start store p) x) :
    ∃ c, Crew.Traces job t workers store p c x.book.calls ∧
      x.Follows t job.batchSize workers.length c := by
  induction hsteps with
  | refl => exact ⟨_, .start, follows_start store p⟩
  | tail _ hstep ih =>
    obtain ⟨c, hc, hx⟩ := ih
    exact hx.step hlog hc hstep

omit [Message M] in
theorem Follows.call_eq_none (hx : x.Follows t batchSize workers.length c)
    (hfinished : x.crew.Finished workers) (k : Nat) : x.call k = none := by
  cases hcall : x.call k with
  | none => rfl
  | some call =>
    obtain ⟨hk, ⟨n, hdue⟩, -⟩ := hx.pending k call hcall
    obtain ⟨failed, hdone⟩ := hfinished k hk
    obtain ⟨-, ⟨i, nodes, hstage, -⟩ | ⟨hstage, -⟩⟩ := Hand.due?_cases hdue <;>
    cases hdone.symm.trans hstage

omit [Message M] in
/-- When no call is under way both executions are at the same place. -/
theorem Follows.eq_of_none (hx : x.Follows t batchSize count c) (hnone : ∀ k, x.call k = none) :
    c = x.crew := by
  have hhands : c.hands = x.crew.hands := funext fun k => hx.hand_of_none (hnone k)
  have hreported : c.shared.tracker.reported = x.log.reported := by
    refine UInt64.le_antisymm ?_ hx.le
    rcases hx.reached with hdone | ⟨k, call, -, hcall, -⟩
    · exact hdone
    · cases (hnone k).symm.trans hcall
  have hshared : c.shared = x.crew.shared := by
    rw [hx.shared, hreported]
    rfl
  obtain ⟨hands, shared⟩ := c
  cases hhands
  cases hshared
  rfl

/-- When no call is under way, the workers are where they are if calls are single actions, with the
    calls in the order in which their nodes are added. -/
theorem traces_of_none (hlog : job.tracker = LoggingProgress.tracker)
    (hsteps : Relation.ReflTransGen (Step job t workers) (start store p) x)
    (hnone : ∀ k, x.call k = none) :
    Crew.Traces job t workers store p x.crew x.book.calls := by
  obtain ⟨c, hc, hx⟩ := exists_follows hlog hsteps
  rw [← hx.eq_of_none hnone]
  exact hc

theorem none_of_finished (hlog : job.tracker = LoggingProgress.tracker)
    (hsteps : Relation.ReflTransGen (Step job t workers) (start store p) x)
    (hfinished : x.crew.Finished workers) (k : Nat) : x.call k = none := by
  obtain ⟨c, -, hx⟩ := exists_follows hlog hsteps
  exact hx.call_eq_none hfinished k

/-! ## Which tenths win, and which lines are written -/

/-- The tenths that have won, and the lines that have been written, in a superstep that has begun
    with the given volume and the given last tenth. -/
structure Logged (volume last : UInt64) (x : LogCrew V M) : Prop where
  volume_eq : x.log.volume = volume
  increasing : x.book.wins.Pairwise (· < ·)
  lt : ∀ tenth ∈ x.book.wins, last < tenth
  le : ∀ tenth ∈ x.book.wins, tenth ≤ x.log.reported
  reported : x.log.reported = last ∨ x.log.reported ∈ x.book.wins
  le_ten : ∀ tenth ∈ x.book.wins, tenth.toNat ≤ 10
  measured : ∀ k tenth, x.call k = some (.measured tenth) → tenth.toNat ≤ 10
  nodup : x.book.written.Nodup
  written : ∀ tenth ∈ x.book.written, tenth ∈ x.book.wins
  owed : ∀ tenth ∈ x.book.wins, tenth ∈ x.book.written ∨ ∃ k, x.call k = some (.won tenth)
  waiting : ∀ k tenth, x.call k = some (.won tenth) →
    tenth ∈ x.book.wins ∧ tenth ∉ x.book.written
  alone : ∀ j k tenth, x.call j = some (.won tenth) → x.call k = some (.won tenth) → j = k

omit [Message M] in
theorem logged_start (store : NodeStore V M) (p : LoggingProgress) :
    (start store p).Logged p.volume p.reported where
  volume_eq := rfl
  increasing := .nil
  lt := nofun
  le := nofun
  reported := .inl rfl
  le_ten := nofun
  measured := nofun
  nodup := .nil
  written := nofun
  owed := nofun
  waiting := nofun
  alone := nofun

variable {volume last : UInt64}

omit [Message M] in
/-- A step of a call that neither wins nor writes. -/
theorem Logged.turn (hx : x.Logged volume last) {k : Nat} (new : Option LogCall)
    (hold : ∀ tenth, x.call k ≠ some (.won tenth)) (hnew : ∀ tenth, new ≠ some (.won tenth))
    (hmeasured : ∀ tenth, new = some (.measured tenth) → tenth.toNat ≤ 10)
    (hcall : x'.call = Function.update x.call k new) (hvolume : x'.log.volume = x.log.volume)
    (hreported : x'.log.reported = x.log.reported) (hwins : x'.book.wins = x.book.wins)
    (hwritten : x'.book.written = x.book.written) : x'.Logged volume last := by
  have hwon : ∀ j tenth, x'.call j = some (.won tenth) ↔ x.call j = some (.won tenth) := by
    intro j tenth
    rw [hcall]
    by_cases hjk : j = k
    · subst hjk
      rw [Function.update_self]
      exact iff_of_false (hnew tenth) (hold tenth)
    · rw [Function.update_of_ne hjk]
  constructor
  · rw [hvolume]
    exact hx.volume_eq
  · rw [hwins]
    exact hx.increasing
  · rw [hwins]
    exact hx.lt
  · rw [hwins, hreported]
    exact hx.le
  · rw [hwins, hreported]
    exact hx.reported
  · rw [hwins]
    exact hx.le_ten
  · intro j tenth hj
    rw [hcall] at hj
    obtain ⟨-, hself⟩ | ⟨-, hj⟩ := of_update_eq_some hj
    · exact hmeasured tenth hself
    · exact hx.measured j tenth hj
  · rw [hwritten]
    exact hx.nodup
  · rw [hwritten, hwins]
    exact hx.written
  · simp only [hwritten, hwins, hwon]
    exact hx.owed
  · simp only [hwritten, hwins, hwon]
    exact hx.waiting
  · simp only [hwon]
    exact hx.alone

omit [Message M] in
/-- A tenth that is later than the last one wins. -/
theorem Logged.win (hx : x.Logged volume last) {k : Nat} {tenth : UInt64}
    (hcall : x.call k = some (.measured tenth)) (hlt : x.log.reported < tenth) :
    Logged volume last
      { crew := x.crew.withLog { x.log with reported := tenth }
        call := Function.update x.call k (some (.won tenth))
        book := { x.book with wins := x.book.wins ++ [tenth] } } := by
  have hnew : tenth ∉ x.book.wins := by
    intro hmem
    exact UInt64.not_le.2 hlt (hx.le tenth hmem)
  have hlast : last ≤ x.log.reported := by
    rcases hx.reported with heq | hmem
    · rw [heq]
      exact UInt64.le_refl _
    · exact UInt64.le_of_lt (hx.lt _ hmem)
  have hwon : ∀ {j other}, Function.update x.call k (some (.won tenth)) j = some (.won other) →
      (j = k ∧ other = tenth) ∨ (j ≠ k ∧ x.call j = some (.won other)) := by
    intro j other hj
    obtain ⟨rfl, ⟨⟩⟩ | hj := of_update_eq_some hj
    · exact .inl ⟨rfl, rfl⟩
    · exact .inr hj
  exact {
    volume_eq := hx.volume_eq
    increasing := List.pairwise_append.2 ⟨hx.increasing, List.pairwise_singleton _ _, by
      intro earlier hmem _ hself
      rw [List.mem_singleton.1 hself]
      exact UInt64.lt_of_le_of_lt (hx.le earlier hmem) hlt⟩
    lt := by
      intro other hmem
      rcases List.mem_append.1 hmem with hmem | hself
      · exact hx.lt other hmem
      · rw [List.mem_singleton.1 hself]
        exact UInt64.lt_of_le_of_lt hlast hlt
    le := by
      intro other hmem
      rcases List.mem_append.1 hmem with hmem | hself
      · exact UInt64.le_of_lt (UInt64.lt_of_le_of_lt (hx.le other hmem) hlt)
      · rw [List.mem_singleton.1 hself]
        exact UInt64.le_refl _
    reported := .inr (List.mem_append_right _ (List.mem_singleton_self _))
    le_ten := by
      intro other hmem
      rcases List.mem_append.1 hmem with hmem | hself
      · exact hx.le_ten other hmem
      · rw [List.mem_singleton.1 hself]
        exact hx.measured k tenth hcall
    measured := by
      intro j other hj
      obtain ⟨-, ⟨⟩⟩ | ⟨-, hj⟩ := of_update_eq_some hj
      exact hx.measured j other hj
    nodup := hx.nodup
    written := fun other hmem => List.mem_append_left _ (hx.written other hmem)
    owed := by
      intro other hmem
      rcases List.mem_append.1 hmem with hmem | hself
      · refine (hx.owed other hmem).imp_right fun ⟨j, hj⟩ => ⟨j, ?_⟩
        have hjk : j ≠ k := by
          rintro rfl
          cases hcall.symm.trans hj
        exact (Function.update_of_ne hjk ..).trans hj
      · rw [List.mem_singleton.1 hself]
        exact .inr ⟨k, Function.update_self ..⟩
    waiting := by
      intro j other hj
      rcases hwon hj with ⟨-, rfl⟩ | ⟨-, hj⟩
      · exact ⟨List.mem_append_right _ (List.mem_singleton_self _),
          fun hmem => hnew (hx.written other hmem)⟩
      · exact ⟨List.mem_append_left _ (hx.waiting j other hj).1, (hx.waiting j other hj).2⟩
    alone := by
      intro i j other hi hj
      rcases hwon hi with ⟨hik, hi'⟩ | ⟨-, hi'⟩ <;> rcases hwon hj with ⟨hjk, hj'⟩ | ⟨-, hj'⟩
      · exact hik.trans hjk.symm
      · exact absurd (hi' ▸ (hx.waiting j other hj').1) hnew
      · exact absurd (hj' ▸ (hx.waiting i other hi').1) hnew
      · exact hx.alone i j other hi' hj' }

omit [Message M] in
/-- A line is written once. -/
theorem Logged.write (hx : x.Logged volume last) {k : Nat} {tenth : UInt64}
    (hcall : x.call k = some (.won tenth)) :
    Logged volume last
      { crew := x.crew.answer t k none
        call := Function.update x.call k none
        book := { x.book with written := x.book.written ++ [tenth] } } := by
  obtain ⟨hmem, hnot⟩ := hx.waiting k tenth hcall
  have hother : ∀ {j call}, Function.update x.call k none j = some call →
      j ≠ k ∧ x.call j = some call := by
    intro j call hj
    obtain ⟨-, ⟨⟩⟩ | hj := of_update_eq_some hj
    exact hj
  exact { hx with
    measured := fun j other hj => hx.measured j other (hother hj).2
    nodup := by
      refine List.nodup_append.2 ⟨hx.nodup, List.nodup_singleton _, ?_⟩
      intro earlier hwritten _ hself
      rw [List.mem_singleton.1 hself]
      rintro rfl
      exact hnot hwritten
    written := by
      intro other hwritten
      rcases List.mem_append.1 hwritten with hwritten | hself
      · exact hx.written other hwritten
      · rw [List.mem_singleton.1 hself]
        exact hmem
    owed := by
      intro other hwins
      rcases hx.owed other hwins with hwritten | ⟨j, hj⟩
      · exact .inl (List.mem_append_left _ hwritten)
      · by_cases hjk : j = k
        · subst hjk
          cases hcall.symm.trans hj
          exact .inl (List.mem_append_right _ (List.mem_singleton_self _))
        · exact .inr ⟨j, (Function.update_of_ne hjk ..).trans hj⟩
    waiting := by
      intro j other hj
      obtain ⟨hjk, hj⟩ := hother hj
      obtain ⟨hwins, hwritten⟩ := hx.waiting j other hj
      refine ⟨hwins, fun hmem => ?_⟩
      rcases List.mem_append.1 hmem with hmem | hself
      · exact hwritten hmem
      · rw [List.mem_singleton.1 hself] at hj
        exact hjk (hx.alone j k tenth hj hcall)
    alone := fun i j other hi hj => hx.alone i j other (hother hi).2 (hother hj).2 }

theorem Logged.step (hx : x.Logged volume last) (hstep : Step job t workers x x') :
    x'.Logged volume last := by
  cases hstep with
  | @act k w h s hw hcall hdue hact =>
    have hlog : s.tracker = x.log := Worker.tracker_of_not_due hdue hact
    refine hx.turn (k := k) none (by simp [hcall]) (by simp) (by simp) ?_
      (congrArg LoggingProgress.volume hlog) (congrArg LoggingProgress.reported hlog) rfl rfl
    exact (Function.update_eq_self_iff.2 hcall.symm).symm
  | add hk hcall hdue _ =>
    exact hx.turn (some (.added _)) (by simp [hcall]) (by simp) (by simp) rfl rfl rfl rfl rfl
  | @overflow k n _ hcall _ _ =>
    refine hx.turn (k := k) none (by simp [hcall]) (by simp) (by simp) ?_ rfl rfl rfl rfl
    exact (Function.update_eq_self_iff.2 hcall.symm).symm
  | measure hcall htenth =>
    refine hx.turn (some (.measured _)) (by simp [hcall]) (by simp) ?_ rfl rfl rfl rfl rfl
    rintro _ ⟨⟩
    exact LoggingProgress.tenth_le_ten htenth
  | fail hcall _ =>
    exact hx.turn none (by simp [hcall]) (by simp) (by simp) rfl rfl rfl rfl rfl
  | win hcall hlt => exact hx.win hcall hlt
  | lose hcall hnot =>
    exact hx.turn none (by simp [hcall]) (by simp) (by simp) rfl rfl rfl rfl rfl
  | write hcall => exact hx.write hcall

theorem logged_of_steps (hsteps : Relation.ReflTransGen (Step job t workers) (start store p) x) :
    x.Logged p.volume p.reported := by
  induction hsteps with
  | refl => exact logged_start store p
  | tail _ hstep ih => exact ih.step hstep

omit [Message M] in
/-- When no call is under way, every tenth that has won has its line. -/
theorem Logged.perm (hx : x.Logged volume last) (hnone : ∀ k, x.call k = none) :
    x.book.written.Perm x.book.wins := by
  have hnodup : x.book.wins.Nodup := hx.increasing.imp UInt64.ne_of_lt
  refine (List.perm_ext_iff_of_nodup hx.nodup hnodup).2 fun tenth =>
    ⟨hx.written tenth, fun hmem => ?_⟩
  rcases hx.owed tenth hmem with hwritten | ⟨k, hk⟩
  · exact hwritten
  · cases (hnone k).symm.trans hk

/-- The log of a superstep that has begun with all counts at zero, when its workers are done. -/
theorem closed_of_steps (hlog : job.tracker = LoggingProgress.tracker)
    (hsteps : Relation.ReflTransGen (Step job t workers) (start store p) x)
    (hfinished : x.crew.Finished workers) (hprocessed : p.processed = 0)
    (hreported : p.reported = 0) (hsmall : 10 * p.volume.toNat < wordLimit) :
    x.book.Closed p.volume := by
  have hnone := none_of_finished hlog hsteps hfinished
  have hlogged := logged_of_steps hsteps
  refine ⟨hlogged.increasing, ?_, hlogged.perm hnone, fun hpos htotal => ?_⟩
  · intro tenth hmem
    have hlt := UInt64.lt_iff_toNat_lt.1 (hlogged.lt tenth hmem)
    rw [hreported] at hlt
    exact ⟨hlt, hlogged.le_ten tenth hmem⟩
  · -- the last call has come to all nodes, and with it the last tenth
    have htracker : x.log = _ := (traces_of_none hlog hsteps hnone).tracker_eq
    have hcounts := (LoggingProgress.counts_zero hprocessed hreported).replay
      (show 0 + Call.total x.book.calls ≤ max p.volume.toNat 1 by omega)
    rw [hlog] at htracker
    rw [← htracker, Nat.zero_add, htotal] at hcounts
    have hten : x.log.reported.toNat = 10 := by
      rw [hcounts.reported_eq hsmall, Nat.max_eq_left hpos, Nat.mul_div_cancel _ hpos]
    have hmem := hlogged.reported.resolve_left fun heq => by
      rw [heq, hreported] at hten
      cases hten
    rw [← UInt64.toNat_inj.1 (show x.log.reported.toNat = (10 : UInt64).toNat from hten)]
    exact hmem

end

end LogCrew

end Superstep
