import Superstep.Proofs.Crew.Words

/-!
# Reading and clearing word by word comes to the same

A worker reads and clears only the bits of its own partition, whatever its neighbours make of the
other bits of a word. So a superstep of workers that go through their nodes word by word is tracked
by one in which every worker finds its nodes at once: the storage differs only in the bits of the
workers that are halfway through clearing them.

Results:
* `WordCrew.Tracks.step`: every action is followed by at most one action of `Worker.act`.
* `WordCrew.exists_tracks`: so is every superstep.
* `WordCrew.interleaving`: what is left of a superstep is what some interleaving leaves.
* `WordCrew.executed_eq`, `WordCrew.present`: a worker executes its active nodes and passes none
  over.
* `WordCrew.exists_action`: no worker leaves the words of the bitset.
-/

namespace Superstep

/-! ## Where a worker stands -/

namespace Scan

variable {W V M : Type}

/-- Where the walk of a worker has to stand for the nodes that it has executed. `members` are the
    active nodes at the start of the superstep, and `share` those of the worker. -/
def AtStage (members : Bitset) (share : List Nat) (w : Worker) (aborted : Bool)
    (walk : Bitset.SetBits) (executed : List Nat) : Stage V M → Prop
  | .waiting => executed = []
  | .between _ | .sending _ _ _ _ _ | .counted _ _ =>
    ∃ p, w.partition.start ≤ p ∧ walk.At members p ∧ walk.stop = w.partition.stop ∧
      share = executed ++ members.left p w.partition.stop
  | .reporting | .clearing | .done false => executed <+: share ∧ (executed = share ∨ aborted = true)
  | .failing _ | .recording _ | .done true => executed <+: share

/-- What a worker that goes through its nodes word by word has in common with one that has a list of
    them. -/
structure Follows (members : Bitset) (share : List Nat) (w : Worker) (aborted : Bool)
    (y : Scan V M) (h : Hand V M) : Prop where
  hand_eq : h = y.hand.withNodes (share.drop y.executed.length)
  atStage : AtStage members share w aborted y.walk y.executed y.hand.stage

/-- The bit of `i` has been cleared by a worker that is halfway through. -/
def Wipes (w : Worker) (y : Scan V M) (i : Nat) : Prop :=
  y.hand.stage = .clearing ∧ i ∈ w.partition.nodes ∧
    i / Bitset.wordBits < w.partition.start / Bitset.wordBits + y.cleared

variable {members : Bitset} {share : List Nat} {w : Worker} {aborted : Bool} {y : Scan V M}
  {h : Hand V M}

theorem AtStage.executed_le {walk : Bitset.SetBits} {executed : List Nat} {stage : Stage V M}
    (hy : AtStage members share w aborted walk executed stage) : executed <+: share := by
  cases stage with
  | waiting =>
    rw [show executed = [] from hy]
    exact List.nil_prefix
  | between nodes =>
    obtain ⟨p, -, -, -, rfl⟩ := hy
    exact List.prefix_append ..
  | sending i outcome lost attempts nodes =>
    obtain ⟨p, -, -, -, rfl⟩ := hy
    exact List.prefix_append ..
  | counted i nodes =>
    obtain ⟨p, -, -, -, rfl⟩ := hy
    exact List.prefix_append ..
  | reporting => exact hy.1
  | clearing => exact hy.1
  | failing e => exact hy
  | recording e => exact hy
  | done failed =>
    cases failed with
    | false => exact hy.1
    | true => exact hy

theorem AtStage.mono {aborted' : Bool} {walk : Bitset.SetBits} {executed : List Nat}
    {stage : Stage V M} (hy : AtStage members share w aborted walk executed stage)
    (haborted : aborted = true → aborted' = true) :
    AtStage members share w aborted' walk executed stage := by
  cases stage with
  | waiting => exact hy
  | between nodes => exact hy
  | sending i outcome lost attempts nodes => exact hy
  | counted i nodes => exact hy
  | reporting => exact ⟨hy.1, hy.2.imp_right haborted⟩
  | clearing => exact ⟨hy.1, hy.2.imp_right haborted⟩
  | failing e => exact hy
  | recording e => exact hy
  | done failed =>
    cases failed with
    | false => exact ⟨hy.1, hy.2.imp_right haborted⟩
    | true => exact hy

theorem ne_clearing {nodes : List Nat} (h : y.hand.stage = .between nodes) :
    y.hand.stage ≠ .clearing := by
  rw [h]
  nofun

theorem drop_executed {executed rest : List Nat} (h : share = executed ++ rest) :
    share.drop executed.length = rest := by
  rw [h, List.drop_left]

end Scan

/-! ## One worker -/

section

variable {W V M T : Type} [Message M] {job : Job W V M T} {t : Nat} {f : Frame V M} {k : Nat}
  {w : Worker} {g : History M} {Cleared Others : Nat → Prop} {h : Hand V M} {s : Shared V M T}
  {members b : Bitset} {y y' : Scan V M} {s' : Shared V M T}

/-- Of the active nodes that have not been removed, `b` lacks those of `Others` and those that this
    worker has wiped. -/
structure Missing (job : Job W V M T) (t : Nat) (w : Worker) (Others : Nat → Prop)
    (s : Shared V M T) (b : Bitset) (y : Scan V M) : Prop where
  sized : b.Sized job.program.nodeCount
  has_iff : ∀ i, b.Has i ↔ (s.store.active.current t).Has i ∧ ¬ (Others i ∨ y.Wipes w i)

/-- A worker that goes through its nodes word by word, beside one that has a list of them. What they
    share differs in the bits of workers that are halfway through clearing them. -/
structure Scan.Beside (job : Job W V M T) (t : Nat) (f : Frame V M) (k : Nat) (w : Worker)
    (g : History M) (Cleared Others : Nat → Prop) (members b : Bitset) (y : Scan V M)
    (h : Hand V M) (s : Shared V M T) : Prop where
  workerInvariant : WorkerInvariant job t f k w g Cleared h s
  follows : y.Follows members (job.program.share f w) w s.aborted h
  missing : Missing job t w Others s b y
  has_members : ∀ i, members.Has i ↔ i ∈ f.active
  others : ∀ i ∈ w.partition.nodes, ¬ Others i

/-- After an action of worker `k`: a worker that finds its nodes at once has done nothing, or has
    taken one action. -/
structure Scan.Tracked (job : Job W V M T) (t : Nat) (f : Frame V M) (w : Worker)
    (Others : Nat → Prop) (members : Bitset) (h : Hand V M) (s : Shared V M T) (y' : Scan V M)
    (s' : Shared V M T) (h₁ : Hand V M) (s₁ : Shared V M T) (b₁ : Bitset) : Prop where
  action : (h₁ = h ∧ s₁ = s) ∨ w.act job t h s = some (h₁, s₁)
  follows : y'.Follows members (job.program.share f w) w s₁.aborted h₁
  shared : s' = s₁.withCurrent t b₁
  missing : Missing job t w Others s₁ b₁ y'

omit [Message M] in
theorem Program.share_eq_left {p : Program W V M} (hmembers : ∀ i, members.Has i ↔ i ∈ f.active) :
    p.share f w = members.left w.partition.start w.partition.stop := by
  unfold share Partition.nodes Bitset.left
  refine List.filter_congr fun i _ => ?_
  simp only [hmembers i]

omit [Message M] in
theorem Missing.congr (hb : Missing job t w Others s b y) (hstage : y.hand.stage ≠ .clearing)
    {s₁ : Shared V M T} (hcurrent : s₁.store.active.current t = s.store.active.current t)
    (hwipes : ∀ i, ¬ y'.Wipes w i) : Missing job t w Others s₁ b y' where
  sized := hb.sized
  has_iff := by
    intro i
    have hno : ¬ y.Wipes w i := fun h => hstage h.1
    rw [hb.has_iff, hcurrent]
    simp [hno, hwipes i]

/-- A worker that is not done has a next action. -/
theorem Worker.exists_act (job : Job W V M T) (t : Nat) (w : Worker) (h : Hand V M)
    (s : Shared V M T) (hstage : ∀ failed, h.stage ≠ .done failed) :
    ∃ h' s', w.act job t h s = some (h', s') := by
  unfold Worker.act
  cases hcase : h.stage with
  | between nodes =>
    cases nodes with
    | nil => exact ⟨_, _, rfl⟩
    | cons i nodes =>
      simp only
      split <;> exact ⟨_, _, rfl⟩
  | sending i outcome lost rest nodes =>
    cases rest with
    | cons a rest => exact ⟨_, _, rfl⟩
    | nil =>
      simp only
      split <;> exact ⟨_, _, rfl⟩
  | done failed => exact (hstage failed hcase).elim
  | _ => exact ⟨_, _, rfl⟩

/-- An action that does not look for active nodes leaves the worker where its nodes say. -/
theorem Scan.AtStage.of_act {share : List Nat} {aborted : Bool} {walk : Bitset.SetBits}
    {executed : List Nat} {h' : Hand V M} (hblind : h.stage.Blind)
    (hy : Scan.AtStage members share w aborted walk executed h.stage)
    (hact : w.act job t h s = some (h', s')) :
    Scan.AtStage members share w aborted walk executed h'.stage := by
  -- A worker that resumes stands where it is told, unless it has failed.
  have hresume : ∀ {x : Sweep V M T} {stage : Stage V M}, s.resume t x stage = (h', s') →
      Scan.AtStage members share w aborted walk executed stage →
        Scan.AtStage members share w aborted walk executed h'.stage := by
    intro x stage hresume hstage
    cases hresume
    cases x.failure with
    | none => exact hstage
    | some e => exact hstage.executed_le
  cases Worker.acts_of_act hact with
  | look hstage =>
    rw [hstage] at hblind
    exact hblind.elim
  | stop hstage =>
    rw [hstage] at hblind
    exact hblind.elim
  | pick hstage =>
    rw [hstage] at hblind
    exact hblind.elim
  | clear hstage =>
    rw [hstage] at hblind
    exact hblind.elim
  | attempt hstage =>
    rw [hstage] at hy
    exact hy
  | fail => exact hy.executed_le
  | count hstage _ hcount =>
    rw [hstage] at hy
    exact hresume hcount hy
  | batch hstage hbatch =>
    rw [hstage] at hy
    exact hresume hbatch hy
  | rest hstage hrest =>
    rw [hstage] at hy
    exact hresume hrest hy
  | abort => exact hy.executed_le
  | record => exact hy.executed_le

namespace Scan.Beside

variable (hx : Scan.Beside job t f k w g Cleared Others members b y h s)
include hx

theorem own (hstage : y.hand.stage ≠ .clearing) {i : Nat} (hi : i ∈ w.partition.nodes) :
    members.Has i ↔ b.Has i := by
  rw [hx.missing.has_iff, hx.workerInvariant.store.has_current, hx.has_members]
  have hwipes : ¬ y.Wipes w i := fun hwipes => hstage hwipes.1
  simp [hx.workerInvariant.uncleared i hi, hx.others i hi, hwipes]

theorem stage_eq : h.stage = y.hand.stage.withNodes
    ((job.program.share f w).drop y.executed.length) := by
  rw [hx.follows.hand_eq]
  rfl

/-- Between two nodes the worker makes one move of its walk. What it finds does not depend on the
    bits of the others. -/
theorem move_spec (hstage : y.hand.stage ≠ .clearing) {p : Nat} (hstart : w.partition.start ≤ p)
    (hat : y.walk.At members p) (hstop : y.walk.stop = w.partition.stop) :
    Bitset.Move.Is members w.partition.stop p (b.move y.walk) := by
  have hown : ∀ i, p ≤ i → i < w.partition.stop → (members.Has i ↔ b.Has i) := fun i hi hlt =>
    hx.own hstage (Partition.mem_nodes.2 ⟨hstart.trans hi, hlt⟩)
  have hle : y.walk.stop ≤ job.program.nodeCount := by
    rw [hstop]
    exact hx.workerInvariant.stop_le.2
  have hmove := Bitset.move_spec hx.missing.sized hx.workerInvariant.small hle
    (hat.congr fun i hi hlt => hown i hi (hstop ▸ hlt))
  rw [hstop] at hmove
  exact hmove.congr fun i hi hlt => (hown i hi hlt).symm

theorem found {nodes : List Nat} (hstage : y.hand.stage = .between nodes) {i : Nat}
    {rest : Bitset.SetBits} (hfound : b.move y.walk = .member i rest) :
    w.partition.start ≤ i ∧ rest.stop = w.partition.stop ∧ rest.At members (i + 1) ∧
      job.program.share f w = y.executed ++ i :: members.left (i + 1) w.partition.stop := by
  have hatStage := hx.follows.atStage
  rw [hstage] at hatStage
  obtain ⟨p, hstart, hat, hstop, hshare⟩ := hatStage
  have hmove := hx.move_spec (ne_clearing hstage) hstart hat hstop
  rw [hfound] at hmove
  obtain ⟨hpi, hlt, hhas, hno, hrest, hrestAt⟩ := hmove
  have hleft : members.left p w.partition.stop = i :: members.left (i + 1) w.partition.stop :=
    Bitset.filter_range'_found hpi hlt hhas hno
  exact ⟨hstart.trans hpi, hrest, hrestAt, by rw [hshare, hleft]⟩

theorem present {nodes rest : List Nat} (hstage : y.hand.stage = .between nodes) {i : Nat}
    (hshare : job.program.share f w = y.executed ++ i :: rest) :
    s.store.values.viewGet? w.view i = some (f.value i) ∧
      s.store.mail.waiting? t i = some (f.inbox i).toArray := by
  have hu := hx.workerInvariant.atStage
  rw [hx.stage_eq, hstage, Scan.drop_executed hshare] at hu
  exact hx.workerInvariant.present_of_upTo hu

/-- The worker loads its first word. -/
theorem load (hstage : y.hand.stage = .waiting) : ∃ h₁,
    Tracked job t f w Others members h s
      { y with
        hand := { y.hand with stage := .between [] }
        walk := b.walk w.partition.start w.partition.stop } (s.withCurrent t b) h₁ s b := by
  have hclearing : y.hand.stage ≠ .clearing := by
    rw [hstage]
    nofun
  have hexecuted : y.executed = [] := by
    have hatStage := hx.follows.atStage
    rw [hstage] at hatStage
    exact hatStage
  have hle := hx.workerInvariant.stop_le.1.trans hx.workerInvariant.stop_le.2
  have hstop : (b.walk w.partition.start w.partition.stop).stop = w.partition.stop := by
    show min w.partition.stop b.size = _
    rw [hx.missing.sized.size_eq]
    exact Nat.min_eq_left hx.workerInvariant.stop_le.2
  have hhand : h.stage = .waiting := by
    rw [hx.stage_eq, hstage]
    rfl
  refine ⟨{ h with stage := .between (job.program.share f w) }, .inr ?_, ⟨?_, ?_⟩, rfl,
    hx.missing.congr hclearing rfl fun i hwipes => by cases hwipes.1⟩
  · unfold Worker.act
    rw [hhand]
    simp only
    rw [hx.workerInvariant.activeNodes_eq]
  · rw [hx.follows.hand_eq]
    show _ = Hand.withNodes _ ((job.program.share f w).drop y.executed.length)
    rw [hexecuted]
    rfl
  · refine ⟨w.partition.start, le_rfl, ?_, hstop, ?_⟩
    · refine (Bitset.at_walk hx.missing.sized hx.workerInvariant.small hle).congr fun i hi hlt => ?_
      rw [hstop] at hlt
      exact (hx.own hclearing (Partition.mem_nodes.2 ⟨hi, hlt⟩)).symm
    · show _ = y.executed ++ _
      rw [hexecuted, List.nil_append]
      exact Program.share_eq_left hx.has_members

/-- A worker stops when it has gone through its nodes, or when it is told to. -/
theorem stop (walk : Bitset.SetBits) {nodes rest : List Nat}
    (hstage : y.hand.stage = .between nodes)
    (hshare : job.program.share f w = y.executed ++ rest) (hrest : rest = [] ∨ s.aborted = true) :
    ∃ h₁, Tracked job t f w Others members h s
      { y with hand := { y.hand with stage := .reporting }, walk } (s.withCurrent t b) h₁ s b := by
  have hclearing := ne_clearing hstage
  have hlist : h.stage = .between rest := by
    rw [hx.stage_eq, hstage, drop_executed hshare]
    rfl
  have hact : w.act job t h s = some ({ h with stage := .reporting }, s) := by
    unfold Worker.act
    rw [hlist]
    cases rest with
    | nil => rfl
    | cons i rest => exact if_pos (hrest.resolve_left nofun)
  refine ⟨_, .inr hact, ⟨?_, ?_, ?_⟩, rfl, hx.missing.congr hclearing rfl fun i hi => by cases hi.1⟩
  · rw [hx.follows.hand_eq]
    rfl
  · exact ⟨rest, hshare.symm⟩
  · refine hrest.imp_left fun hnil => ?_
    rw [hshare, hnil, List.append_nil]

/-- A worker takes up the node that its walk has found. Its value and its messages are there. -/
theorem take {nodes rest : List Nat} {i : Nat} {walk : Bitset.SetBits}
    (hstage : y.hand.stage = .between nodes)
    (hshare : job.program.share f w = y.executed ++ i :: rest) (haborted : ¬ s.aborted = true)
    (hrest : rest = members.left (i + 1) w.partition.stop) (hstart : w.partition.start ≤ i)
    (hstop : walk.stop = w.partition.stop) (hat : walk.At members (i + 1)) :
    ∃ h₁ s₁, Tracked job t f w Others members h s
      { y with
        hand := (w.pick job t y.hand (s.withCurrent t b) i []).1
        walk
        executed := y.executed ++ (w.pick job t y.hand (s.withCurrent t b) i []).1.stage.taken }
      (w.pick job t y.hand (s.withCurrent t b) i []).2 h₁ s₁ b := by
  have hclearing := ne_clearing hstage
  have hlist : h.stage = .between (i :: rest) := by
    rw [hx.stage_eq, hstage, drop_executed hshare]
    rfl
  have hact : w.act job t h s = some (w.pick job t h s i rest) := by
    unfold Worker.act
    rw [hlist]
    exact if_neg haborted
  obtain ⟨hvalue, hmail⟩ := hx.present hstage hshare
  have hpick : w.pick job t y.hand (s.withCurrent t b) i [] =
      ({ y.hand with
          stage := .sending i (job.program.outcome f t i) none (job.program.attempts f t i) [] },
        ({ s with store := ⟨s.store.values.viewSet w.view i (job.program.outcome f t i).value,
          s.store.mail.discard t i, s.store.active⟩ } : Shared V M T).withCurrent t b) := by
    have hvalue' : (s.withCurrent t b).store.values.viewGet? w.view i = some (f.value i) := hvalue
    have hmail' : (s.withCurrent t b).store.mail.waiting? t i = some (f.inbox i).toArray := hmail
    rw [Worker.pick, hvalue', hmail']
    rfl
  have hshare' : job.program.share f w = (y.executed ++ [i]) ++ rest := by
    rw [hshare, List.append_assoc, List.singleton_append]
  rw [Worker.pick, hvalue, hmail] at hact
  rw [hpick]
  refine ⟨_, _, .inr hact, ⟨?_, ?_⟩, rfl, hx.missing.congr hclearing rfl fun i hi => by cases hi.1⟩
  · show _ = Hand.withNodes _ ((job.program.share f w).drop (y.executed ++ [i]).length)
    rw [drop_executed hshare', hx.follows.hand_eq]
    rfl
  · exact ⟨i + 1, by omega, hat, hstop, by rw [← hrest]; exact hshare'⟩

/-- Between two nodes the worker takes up the next one, or goes on to its next word, or stops. -/
theorem go {nodes : List Nat} (hstage : y.hand.stage = .between nodes)
    (hact : w.actWord job t y (s.withCurrent t b) = some (y', s')) :
    ∃ h₁ s₁, Tracked job t f w Others members h s y' s' h₁ s₁ b := by
  have hclearing := ne_clearing hstage
  have hatStage := hx.follows.atStage
  rw [hstage] at hatStage
  obtain ⟨p, hstart, hat, hstop, hshare⟩ := hatStage
  have hmove := hx.move_spec hclearing hstart hat hstop
  unfold Worker.actWord at hact
  rw [hstage] at hact
  simp only [Shared.current_withCurrent] at hact
  cases hfound : b.move y.walk with
  | member i rest =>
    obtain ⟨hstart, hstop, hat, hshare⟩ := hx.found hstage hfound
    rw [hfound] at hact
    simp only at hact
    split at hact
    · next haborted =>
      cases hact
      obtain ⟨h₁, htracked⟩ := hx.stop rest hstage hshare (.inr haborted)
      exact ⟨h₁, s, htracked⟩
    · next haborted =>
      cases hact
      exact hx.take hstage hshare haborted rfl hstart hstop hat
  | word rest =>
    rw [hfound] at hact hmove
    cases hact
    obtain ⟨q, hpq, hno, hrest, hrestAt⟩ := hmove
    refine ⟨h, s, .inl ⟨rfl, rfl⟩, ⟨hx.follows.hand_eq, ?_⟩, rfl,
      hx.missing.congr hclearing rfl fun i hi => hclearing hi.1⟩
    rw [hstage]
    refine ⟨q, hstart.trans hpq, hrestAt, hrest, ?_⟩
    rw [hshare, Bitset.left_eq_of_word hpq hno]
  | finished rest =>
    rw [hfound] at hact hmove
    cases hact
    have hleft : members.left p w.partition.stop = [] := Bitset.filter_range'_finished hmove
    rw [hleft] at hshare
    obtain ⟨h₁, htracked⟩ := hx.stop rest hstage hshare (.inl rfl)
    exact ⟨h₁, s, htracked⟩
  | outOfBounds =>
    rw [hfound] at hmove
    exact hmove.elim

/-- The worker clears its nodes in one more word. -/
theorem wipe {b' : Bitset} (hstage : y.hand.stage = .clearing)
    (hclear : b.clearWord? w.partition.start w.partition.stop
      (w.partition.start / Bitset.wordBits + y.cleared) = some b') :
    Tracked job t f w Others members h s { y with cleared := y.cleared + 1 } (s.withCurrent t b')
      h s b' := by
  refine ⟨.inl ⟨rfl, rfl⟩, ⟨hx.follows.hand_eq, hx.follows.atStage⟩, rfl,
    hx.missing.sized.clearWord? hclear, fun i => ?_⟩
  -- The nodes that are wiped now are those of the word.
  have hwipes : ({ y with cleared := y.cleared + 1 } : Scan V M).Wipes w i ↔ y.Wipes w i ∨
      (i / Bitset.wordBits = w.partition.start / Bitset.wordBits + y.cleared ∧
        w.partition.start ≤ i ∧ i < w.partition.stop) := by
    unfold Wipes
    simp only [hstage, Partition.mem_nodes, true_and]
    omega
  rw [Bitset.has_clearWord? hclear, hx.missing.has_iff, hwipes]
  tauto

/-- The worker has cleared its nodes in all its words. -/
theorem leave (hstage : y.hand.stage = .clearing)
    (hend : w.partition.start ≥ w.partition.stop ∨
      w.partition.start / Bitset.wordBits + y.cleared > (w.partition.stop - 1) / Bitset.wordBits) :
    ∃ h₁ s₁, Tracked job t f w Others members h s
      { y with hand := { y.hand with stage := .done false } } (s.withCurrent t b) h₁ s₁ b := by
  have hlist : h.stage = .clearing := by
    rw [hx.stage_eq, hstage]
    rfl
  have hact : w.act job t h s = some ({ h with stage := .done false },
      s.withCurrent t ((s.store.active.current t).clear w.partition.start w.partition.stop).1) := by
    unfold Worker.act
    rw [hlist]
    rfl
  have hatStage := hx.follows.atStage
  rw [hstage] at hatStage
  refine ⟨_, _, .inr hact, ⟨?_, hatStage⟩, (Shared.withCurrent_withCurrent ..).symm,
    hx.missing.sized, fun i => ?_⟩
  · rw [hx.follows.hand_eq]
    rfl
  · have hold : y.Wipes w i ↔ w.partition.start ≤ i ∧ i < w.partition.stop := by
      unfold Wipes
      rw [Partition.mem_nodes]
      refine ⟨fun hi => hi.2.1, fun hi => ⟨hstage, hi, ?_⟩⟩
      have hword : i / Bitset.wordBits ≤ (w.partition.stop - 1) / Bitset.wordBits :=
        Nat.div_le_div_right (by omega)
      omega
    have hnew : ¬ ({ y with hand := { y.hand with stage := .done false } } : Scan V M).Wipes w i :=
      fun hi => by cases hi.1
    rw [Shared.current_withCurrent, Bitset.has_clear, hx.missing.has_iff, hold]
    simp only [hnew, or_false, not_or]
    tauto

/-- Any other action is one of the worker with the list. -/
theorem blind (hblind : y.hand.stage.Blind) {h' : Hand V M}
    (hact : w.act job t y.hand (s.withCurrent t b) = some (h', s')) : ∃ h₁ s₁,
    Tracked job t f w Others members h s { y with hand := h', cleared := 0 } s' h₁ s₁ b := by
  have hclearing : y.hand.stage ≠ .clearing := fun hstage => by
    rw [hstage] at hblind
    exact hblind
  have hwipes : ∀ i, ¬ ({ y with hand := h', cleared := 0 } : Scan V M).Wipes w i := by
    rintro i ⟨-, hi, hlt⟩
    have hword : w.partition.start / Bitset.wordBits ≤ i / Bitset.wordBits :=
      Nat.div_le_div_right (Partition.mem_nodes.1 hi).1
    simp only [Nat.add_zero] at hlt
    omega
  obtain ⟨s₁, hact₁, hs', hcurrent⟩ :=
    Worker.act_blind hblind ((job.program.share f w).drop y.executed.length) hact
  rw [← hx.follows.hand_eq] at hact₁
  obtain ⟨g', heffect, -⟩ := hx.workerInvariant.act hact₁
  exact ⟨_, s₁, .inr hact₁,
    ⟨rfl, (hx.follows.atStage.of_act hblind hact).mono heffect.aborted⟩, hs',
    hx.missing.congr hclearing hcurrent hwipes⟩

/-- Every action is followed by at most one action of the worker with the list. -/
theorem actWord (hact : w.actWord job t y (s.withCurrent t b) = some (y', s')) :
    ∃ h₁ s₁ b₁, Tracked job t f w Others members h s y' s' h₁ s₁ b₁ := by
  cases hstage : y.hand.stage with
  | waiting =>
    unfold Worker.actWord at hact
    rw [hstage] at hact
    simp only [Shared.current_withCurrent] at hact
    cases hact
    obtain ⟨h₁, htracked⟩ := hx.load hstage
    exact ⟨h₁, s, b, htracked⟩
  | between nodes =>
    obtain ⟨h₁, s₁, htracked⟩ := hx.go hstage hact
    exact ⟨h₁, s₁, b, htracked⟩
  | clearing =>
    unfold Worker.actWord at hact
    rw [hstage] at hact
    simp only [Shared.current_withCurrent] at hact
    split at hact
    · next hend =>
      cases hact
      obtain ⟨h₁, s₁, htracked⟩ := hx.leave hstage hend
      exact ⟨h₁, s₁, b, htracked⟩
    · obtain ⟨b', hclear, hb'⟩ := Option.map_eq_some_iff.1 hact
      cases hb'
      rw [Shared.withCurrent_withCurrent]
      exact ⟨h, s, b', hx.wipe hstage hclear⟩
  | _ =>
    have hblind : y.hand.stage.Blind := by
      rw [hstage]
      trivial
    rw [Worker.actWord_of_blind hblind] at hact
    obtain ⟨⟨h', s''⟩, hact', heq⟩ := Option.map_eq_some_iff.1 hact
    cases heq
    obtain ⟨h₁, s₁, htracked⟩ := hx.blind hblind hact'
    exact ⟨h₁, s₁, b, htracked⟩

/-- A worker that is not done can act: neither its walk nor its clearing leaves the words. -/
theorem exists_action (hstage : ∀ failed, y.hand.stage ≠ .done failed) :
    ∃ y' s', w.actWord job t y (s.withCurrent t b) = some (y', s') := by
  cases hcase : y.hand.stage with
  | waiting =>
    unfold Worker.actWord
    rw [hcase]
    exact ⟨_, _, rfl⟩
  | between nodes =>
    have hatStage := hx.follows.atStage
    rw [hcase] at hatStage
    obtain ⟨p, hstart, hat, hstop, -⟩ := hatStage
    have hmove := hx.move_spec (ne_clearing hcase) hstart hat hstop
    unfold Worker.actWord
    rw [hcase]
    simp only [Shared.current_withCurrent]
    cases hfound : b.move y.walk with
    | member i rest =>
      simp only
      split <;> exact ⟨_, _, rfl⟩
    | word rest => exact ⟨_, _, rfl⟩
    | finished rest => exact ⟨_, _, rfl⟩
    | outOfBounds =>
      rw [hfound] at hmove
      exact hmove.elim
  | clearing =>
    unfold Worker.actWord
    rw [hcase]
    simp only [Shared.current_withCurrent]
    split
    · exact ⟨_, _, rfl⟩
    · next hmore =>
      have hword : w.partition.start / Bitset.wordBits + y.cleared < b.words.size := by
        have hlast : (w.partition.stop - 1) / Bitset.wordBits <
            Bitset.wordCount job.program.nodeCount :=
          Bitset.div_lt_wordCount (by have := hx.workerInvariant.stop_le.2; omega)
        rw [hx.missing.sized.words_eq]
        omega
      obtain ⟨b', hclear⟩ :=
        Bitset.exists_clearWord? w.partition.start w.partition.stop hword
      rw [hclear]
      exact ⟨_, _, rfl⟩
  | done failed => exact (hstage failed hcase).elim
  | _ =>
    have hblind : y.hand.stage.Blind := by
      rw [hcase]
      trivial
    obtain ⟨h', s', hact⟩ := w.exists_act job t y.hand (s.withCurrent t b) hstage
    rw [Worker.actWord_of_blind hblind, hact]
    exact ⟨_, _, rfl⟩

end Scan.Beside

end

/-! ## All workers -/

namespace WordCrew

variable {W V M T : Type}

/-- The bits that have been cleared by workers that are halfway through. -/
def Wiped (workers : List Worker) (x : WordCrew V M T) (i : Nat) : Prop :=
  ∃ k w, workers[k]? = some w ∧ (x.scans k).Wipes w i

/-- The bits that have been cleared by workers other than worker `k`. -/
def WipedBeside (workers : List Worker) (x : WordCrew V M T) (k i : Nat) : Prop :=
  ∃ j ≠ k, ∃ v, workers[j]? = some v ∧ (x.scans j).Wipes v i

/-- A superstep of workers that go through their nodes word by word, beside one of workers that find
    them at once. -/
structure Tracks (job : Job W V M T) (t : Nat) (f : Frame V M) (workers : List Worker)
    (members : Bitset) (x : WordCrew V M T) (c : Crew V M T) (b : Bitset) : Prop where
  shared : x.shared = c.shared.withCurrent t b
  sized : b.Sized job.program.nodeCount
  has_iff : ∀ i, b.Has i ↔ (c.shared.store.active.current t).Has i ∧ ¬ x.Wiped workers i
  follows : ∀ k w, workers[k]? = some w →
    (x.scans k).Follows members (job.program.share f w) w c.shared.aborted (c.hands k)

/-- What is missing is what this worker has wiped and what the others have. -/
theorem wiped_iff {workers : List Worker} {x : WordCrew V M T} {k : Nat} {w : Worker}
    (hw : workers[k]? = some w) (i : Nat) :
    x.Wiped workers i ↔ x.WipedBeside workers k i ∨ (x.scans k).Wipes w i := by
  constructor
  · rintro ⟨j, v, hv, hi⟩
    by_cases hjk : j = k
    · subst hjk
      rw [hw] at hv
      cases hv
      exact .inr hi
    · exact .inl ⟨j, hjk, v, hv, hi⟩
  · rintro (⟨j, -, v, hv, hi⟩ | hi)
    · exact ⟨j, v, hv, hi⟩
    · exact ⟨k, w, hw, hi⟩

theorem wipedBeside_update {workers : List Worker} {x : WordCrew V M T} {k : Nat} (y : Scan V M)
    (s : Shared V M T) (i : Nat) :
    WipedBeside workers ⟨Function.update x.scans k y, s⟩ k i ↔ x.WipedBeside workers k i := by
  unfold WipedBeside
  refine exists_congr fun j => and_congr_right fun hjk => ?_
  simp only [Function.update_of_ne hjk]

variable [Message M] {job : Job W V M T} {t : Nat} {f : Frame V M} {workers : List Worker}
  {members b : Bitset} {x x' : WordCrew V M T} {c : Crew V M T} {g : History M}

namespace Tracks

omit [Message M] in
theorem start (store : NodeStore V M) (tracker : T) (hstore : store.Holds job.program t f) :
    Tracks job t f workers (store.active.current t) (.start store tracker) (.start store tracker)
      (store.active.current t) where
  shared := (Shared.withCurrent_current _ t).symm
  sized := hstore.current
  has_iff := by
    intro i
    have hno : ¬ (WordCrew.start store tracker : WordCrew V M T).Wiped workers i :=
      fun ⟨_, _, _, hi⟩ => by cases hi.1
    exact ⟨fun hi => ⟨hi, hno⟩, And.left⟩
  follows := fun _ _ _ => ⟨rfl, rfl⟩

omit [Message M] in
theorem done_iff (hx : Tracks job t f workers members x c b) {k : Nat} {w : Worker}
    (hw : workers[k]? = some w) {failed : Bool} :
    (c.hands k).stage = .done failed ↔ (x.scans k).hand.stage = .done failed := by
  rw [(hx.follows k w hw).hand_eq]
  exact Stage.withNodes_done

theorem beside (hx : Tracks job t f workers members x c b) (hm : c.Midway job t f workers g)
    (ht : Team job.program workers) (hmembers : ∀ i, members.Has i ↔ i ∈ f.active) {k : Nat}
    {w : Worker} (hw : workers[k]? = some w) (hstage : (x.scans k).hand.stage ≠ .done false) :
    Scan.Beside job t f k w g (c.Cleared workers) (x.WipedBeside workers k) members b (x.scans k)
      (c.hands k) c.shared where
  workerInvariant := hm.workerInvariant ht hw fun hdone => hstage ((hx.done_iff hw).1 hdone)
  follows := hx.follows k w hw
  missing := ⟨hx.sized, fun i => by rw [hx.has_iff, wiped_iff hw]⟩
  has_members := hmembers
  others := by
    rintro i hi ⟨j, hjk, v, hv, -, hiv, -⟩
    exact hjk (ht.eq_of_mem hv hw hiv hi)

/-- After an action of worker `k`. -/
theorem update (hx : Tracks job t f workers members x c b) {k : Nat} {w : Worker}
    (hw : workers[k]? = some w) {y : Scan V M} {s s₁ : Shared V M T} {h₁ : Hand V M} {b₁ : Bitset}
    (htracked : Scan.Tracked job t f w (x.WipedBeside workers k) members (c.hands k) c.shared y s
      h₁ s₁ b₁) (haborted : c.shared.aborted = true → s₁.aborted = true) :
    Tracks job t f workers members ⟨Function.update x.scans k y, s⟩
      ⟨Function.update c.hands k h₁, s₁⟩ b₁ where
  shared := htracked.shared
  sized := htracked.missing.sized
  has_iff := by
    intro i
    rw [htracked.missing.has_iff, wiped_iff hw, wipedBeside_update]
    simp only [Function.update_self]
  follows := by
    intro j v hv
    by_cases hjk : j = k
    · subst hjk
      rw [hw] at hv
      cases hv
      simpa only [Function.update_self] using htracked.follows
    · simp only [Function.update_of_ne hjk]
      obtain ⟨hhand, hatStage⟩ := hx.follows j v hv
      exact ⟨hhand, hatStage.mono haborted⟩

/-- Every action is followed by at most one action of workers that find their nodes at once. -/
theorem step (hx : Tracks job t f workers members x c b) (hm : c.Midway job t f workers g)
    (ht : Team job.program workers) (hmembers : ∀ i, members.Has i ↔ i ∈ f.active)
    (hstep : Step job t workers x x') :
    ∃ c' b', Relation.ReflGen (Crew.Step job t workers) c c' ∧
      Tracks job t f workers members x' c' b' := by
  obtain ⟨hw, hact⟩ := hstep
  rename_i k w y s
  have hstage : (x.scans k).hand.stage ≠ .done false := fun hdone => by
    unfold Worker.actWord at hact
    rw [hdone] at hact
    simp [Worker.act, hdone] at hact
  have hbeside := hx.beside hm ht hmembers hw hstage
  rw [hx.shared] at hact
  obtain ⟨h₁, s₁, b₁, htracked⟩ := hbeside.actWord hact
  refine ⟨⟨Function.update c.hands k h₁, s₁⟩, b₁, ?_, hx.update hw htracked ?_⟩
  · rcases htracked.action with ⟨rfl, rfl⟩ | hact₁
    · rw [Function.update_eq_self]
    · exact .single (.act hw hact₁)
  · rcases htracked.action with ⟨-, rfl⟩ | hact₁
    · exact id
    · obtain ⟨g', heffect, -⟩ := hbeside.workerInvariant.act hact₁
      exact heffect.aborted

end Tracks

/-- Every superstep is tracked by one of workers that find their nodes at once. -/
theorem exists_tracks (ht : Team job.program workers) {store : NodeStore V M}
    (hstore : store.Holds job.program t f) {tracker : T}
    (hsteps : Relation.ReflTransGen (Step job t workers) (.start store tracker) x) :
    ∃ c b, Relation.ReflTransGen (Crew.Step job t workers) (.start store tracker) c ∧
      Tracks job t f workers (store.active.current t) x c b := by
  induction hsteps with
  | refl => exact ⟨_, _, .refl, .start store tracker hstore⟩
  | tail _ hstep ih =>
    obtain ⟨c, b, hcrew, hx⟩ := ih
    obtain ⟨⟨g, hm⟩, -⟩ := Crew.midway_of_steps ht hstore hcrew
    obtain ⟨c', b', hcrew', hx'⟩ := hx.step hm ht hstore.has_current hstep
    exact ⟨c', b', hcrew.trans hcrew'.to_reflTransGen, hx'⟩

/-! ## What a superstep comes to -/

section

variable {store : NodeStore V M} {tracker : T} (ht : Team job.program workers)
  (hstore : store.Holds job.program t f)
  (hsteps : Relation.ReflTransGen (Step job t workers) (.start store tracker) x)
include ht hstore hsteps

/-- What is left of a superstep is what some interleaving leaves of workers that find their nodes at
    once. -/
theorem interleaving (hfinished : x.crew.Finished workers) :
    Interleaving job t workers store tracker (x.crew.round workers) := by
  obtain ⟨c, b, hcrew, hx⟩ := exists_tracks ht hstore hsteps
  obtain ⟨⟨g, hm⟩, -⟩ := Crew.midway_of_steps ht hstore hcrew
  have hwiped : ∀ i, ¬ x.Wiped workers i := by
    rintro i ⟨k, w, hw, hclearing, -⟩
    obtain ⟨failed, hdone⟩ := hfinished k (List.getElem?_eq_some_iff.1 hw).1
    cases hclearing.symm.trans hdone
  have hb : b = c.shared.store.active.current t :=
    Bitset.eq_of_has hx.sized hm.store.current fun i => by simp [hx.has_iff, hwiped i]
  have hshared : x.shared = c.shared := by
    rw [hx.shared, hb, Shared.withCurrent_current]
  have hhands : ∀ k < workers.length, c.hands k = x.crew.hands k := by
    intro k hk
    obtain ⟨failed, hdone⟩ := hfinished k hk
    rw [(hx.follows k _ (List.getElem?_eq_getElem hk)).hand_eq]
    exact Hand.withNodes_of_done hdone _
  refine ⟨c, hcrew, fun k hk => ?_, ?_⟩
  · rw [hhands k hk]
    exact hfinished k hk
  · unfold Crew.round
    rw [← Crew.counts_congr hhands]
    show Round.mk x.shared.store x.shared.tracker _ x.shared.failure = _
    rw [hshared]

/-- At any time a worker has executed the first of its active nodes, in ascending order. -/
theorem executed_le {k : Nat} {w : Worker} (hw : workers[k]? = some w) :
    (x.scans k).executed <+: job.program.share f w := by
  obtain ⟨c, b, -, hx⟩ := exists_tracks ht hstore hsteps
  exact (hx.follows k w hw).atStage.executed_le

/-- Without a failure every worker has executed all its active nodes. -/
theorem executed_eq (hfinished : x.crew.Finished workers) (hfailure : x.shared.failure = none)
    {k : Nat} {w : Worker} (hw : workers[k]? = some w) :
    (x.scans k).executed = job.program.share f w := by
  obtain ⟨c, b, hcrew, hx⟩ := exists_tracks ht hstore hsteps
  obtain ⟨-, hc⟩ := Crew.midway_of_steps ht hstore hcrew
  have hfinished' : c.Finished workers := by
    intro j hj
    obtain ⟨failed, hdone⟩ := hfinished j hj
    exact ⟨failed, (hx.done_iff (List.getElem?_eq_getElem hj)).2 hdone⟩
  have hfailure' : c.shared.failure = none := by
    rw [hx.shared] at hfailure
    exact hfailure
  have hdone := (hx.done_iff hw).1
    (hc.done_false hfinished' hfailure' k (List.getElem?_eq_some_iff.1 hw).1)
  have hatStage := (hx.follows k w hw).atStage
  rw [hdone] at hatStage
  exact hatStage.2.resolve_right (hc.not_aborted hfinished' hfailure')

/-- Until a worker is done it is beside one with a list of its nodes. -/
theorem exists_beside {k : Nat} {w : Worker} (hw : workers[k]? = some w)
    (hstage : (x.scans k).hand.stage ≠ .done false) : ∃ g Cleared Others b h s,
      Scan.Beside job t f k w g Cleared Others (store.active.current t) b (x.scans k) h s ∧
        x.shared = s.withCurrent t b := by
  obtain ⟨c, b, hcrew, hx⟩ := exists_tracks ht hstore hsteps
  obtain ⟨⟨g, hm⟩, -⟩ := Crew.midway_of_steps ht hstore hcrew
  exact ⟨g, _, _, b, _, _, hx.beside hm ht hstore.has_current hw hstage, hx.shared⟩

/-- Whenever a worker finds its next node, the value and the messages of the node are there. -/
theorem present {k : Nat} {w : Worker} (hw : workers[k]? = some w) {nodes : List Nat}
    (hstage : (x.scans k).hand.stage = .between nodes) {i : Nat} {rest : Bitset.SetBits}
    (hfound : (x.shared.store.active.current t).move (x.scans k).walk = .member i rest) :
    x.shared.store.values.viewGet? w.view i = some (f.value i) ∧
      x.shared.store.mail.waiting? t i = some (f.inbox i).toArray := by
  have hnot : (x.scans k).hand.stage ≠ .done false := by
    rw [hstage]
    nofun
  obtain ⟨g, Cleared, Others, b, h, s, hbeside, hshared⟩ :=
    exists_beside ht hstore hsteps hw hnot
  rw [hshared, Shared.current_withCurrent] at hfound
  rw [hshared]
  exact hbeside.present hstage (hbeside.found hstage hfound).2.2.2

/-- A worker that is not done has a next action: its walk does not leave the words, and neither does
    its clearing. -/
theorem exists_action {k : Nat} {w : Worker} (hw : workers[k]? = some w)
    (hstage : ∀ failed, (x.scans k).hand.stage ≠ .done failed) :
    ∃ y s, w.actWord job t (x.scans k) x.shared = some (y, s) := by
  obtain ⟨g, Cleared, Others, b, h, s, hbeside, hshared⟩ :=
    exists_beside ht hstore hsteps hw (hstage false)
  rw [hshared]
  exact hbeside.exists_action hstage

end

end WordCrew

end Superstep
