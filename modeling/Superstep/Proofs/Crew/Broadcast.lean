import Superstep.Graph.OffsetTable
import Superstep.Proofs.Crew.InOrder

/-!
# Broadcasting is sending one by one

A broadcast stops at the first failure. A step may as well walk along its relationships to the end
and send one message after the other (`sendEach`). The failure of the outbox makes the two come to
the same, as far as the relationships can be read: as soon as one is recorded, no message changes
anything.

A message is refused if its target is out of reach, or if it has to be stored and the mailbox cannot
grow (`Channel.refusal?`). No message changes who is in reach, but what it leaves in the mailboxes
may decide whether a later one is refused. So the recorded failure is that of the first message that
is refused when its turn comes, which is the first one whose target is out of reach only if no
mailbox has had to grow in vain before.

Results:
* `sendTo_of_accepted`, `sendTo_of_refused`: what becomes of one message.
* `failure_sendEach_iff`: the failure of a sequence of messages.
* `broadcast_eq_sends`: a broadcast and a step with broadcasts leave what single messages leave.
* `broadcast_cut_short`: a broadcast of which the single messages could not all be sent, and one of
  which the failure is not that of the target out of reach.
-/

namespace Superstep

namespace Channel

variable {M : Type}

/-- Why a message to `target` is refused while the mailboxes are `mail`, if it is. -/
def refusal? (c : Channel M) (mail : Mailboxes M) (target : NodeId) : Option SendFailure :=
  if target.val ≥ c.nodeCount then some (.unknownTarget target)
  else
    match mail.waiting? (c.superstep + 1) target.index with
    | none => some (.unknownTarget target)
    | some box =>
      if Mailboxes.delivery c.reduction box = .stored && !c.grows mail target.index then
        some (.allocation ⟨box.size + 1⟩)
      else none

/-- Whether the target is a node of the graph and has a mailbox. -/
def Reaches (c : Channel M) (mail : Mailboxes M) (target : NodeId) : Prop :=
  target.val < c.nodeCount ∧ (mail.waiting? (c.superstep + 1) target.index).isSome

instance (c : Channel M) (mail : Mailboxes M) (target : NodeId) :
    Decidable (c.Reaches mail target) :=
  inferInstanceAs (Decidable (_ ∧ _))

variable {c : Channel M} {mail : Mailboxes M} {target : NodeId}

theorem refusal?_of_not_reaches (h : ¬ c.Reaches mail target) :
    c.refusal? mail target = some (.unknownTarget target) := by
  unfold refusal?
  split
  · rfl
  · next hlt =>
    have hnone : mail.waiting? (c.superstep + 1) target.index = none := by
      rw [← Option.not_isSome_iff_eq_none]
      exact fun hbox => h ⟨UInt64.not_le.1 hlt, hbox⟩
    rw [hnone]

/-- A message whose target is in reach is refused only by a mailbox that cannot grow. -/
theorem refusal?_of_reaches (h : c.Reaches mail target) :
    c.refusal? mail target = none ∨
      c.grows mail target.index = false ∧ ∃ e, c.refusal? mail target = some (.allocation e) := by
  obtain ⟨hlt, hbox⟩ := h
  obtain ⟨box, hbox⟩ := Option.isSome_iff_exists.1 hbox
  unfold refusal?
  rw [if_neg (UInt64.not_le.2 hlt), hbox]
  dsimp only
  split
  · next hfull => exact .inr ⟨by simp_all, _, rfl⟩
  · exact .inl rfl

theorem reaches_of_refusal?_eq_none (h : c.refusal? mail target = none) :
    c.Reaches mail target := by
  by_contra hnot
  rw [refusal?_of_not_reaches hnot] at h
  cases h

end Channel

namespace Outbox

variable {W M : Type} [Message M]

/-- Sends letters one after the other, whether or not one of them fails. -/
def sendEach (c : Channel M) (o : Outbox M) (letters : List (NodeId × M)) : Outbox M :=
  letters.foldl (fun o l => o.sendTo c l.1 l.2) o

/-! ## One message -/

section One

variable {c : Channel M} {o : Outbox M} {target : NodeId}

theorem sendTo_of_accepted (ho : o.failure = none) (h : c.refusal? o.mail target = none) (m : M) :
    ∃ delivery, o.sendTo c target m = settle
      ⟨o.mail.modify (c.superstep + 1) target.index (Mailboxes.deliver c.reduction m), o.next,
        o.tally, none⟩ target delivery := by
  obtain ⟨hlt, hbox⟩ := Channel.reaches_of_refusal?_eq_none h
  obtain ⟨box, hbox⟩ := Option.isSome_iff_exists.1 hbox
  refine ⟨_, sendTo_eq ho (UInt64.lt_iff_toNat_lt.1 hlt) hbox ?_ m⟩
  unfold Channel.refusal? at h
  rw [if_neg (UInt64.not_le.2 hlt), hbox] at h
  intro hstored
  by_contra hfull
  simp [hstored, hfull] at h

theorem sendTo_of_refused (ho : o.failure = none) {f : SendFailure}
    (h : c.refusal? o.mail target = some f) (m : M) : o.sendTo c target m = o.fail f := by
  obtain ⟨mail, next, tally, failure⟩ := o
  obtain rfl : failure = none := ho
  unfold Channel.refusal? at h
  unfold sendTo Mailboxes.send
  rw [if_neg (by simp)]
  split at h
  · next hlarge =>
    obtain rfl := Option.some.inj h
    rw [if_pos hlarge]
  · next hlt =>
    rw [if_neg hlt]
    dsimp only at h ⊢
    cases hbox : mail.waiting? (c.superstep + 1) target.index with
    | none =>
      rw [hbox] at h
      obtain rfl := Option.some.inj h
      rfl
    | some box =>
      rw [hbox] at h
      dsimp only at h ⊢
      split at h
      · next hfull =>
        obtain rfl := Option.some.inj h
        rw [if_pos hfull]
        rfl
      · cases h

/-- A message that is refused records a failure, unless there is one already. -/
theorem failure_sendTo_eq (c : Channel M) (o : Outbox M) (target : NodeId) (m : M) :
    (o.sendTo c target m).failure = o.failure.or (c.refusal? o.mail target) := by
  cases ho : o.failure with
  | some f => exact failure_sendTo ho target m
  | none =>
    rw [Option.none_or]
    cases h : c.refusal? o.mail target with
    | none =>
      obtain ⟨delivery, hsent⟩ := sendTo_of_accepted ho h m
      rw [hsent, failure_settle]
    | some f =>
      rw [sendTo_of_refused ho h]
      rfl

theorem reaches_sendTo (c : Channel M) (o : Outbox M) (target other : NodeId) (m : M) :
    c.Reaches (o.sendTo c target m).mail other ↔ c.Reaches o.mail other := by
  cases ho : o.failure with
  | some f => rw [sendTo_of_failed (by simp [ho])]
  | none =>
    cases h : c.refusal? o.mail target with
    | none =>
      obtain ⟨delivery, hsent⟩ := sendTo_of_accepted ho h m
      unfold Channel.Reaches
      rw [hsent, settle, (activate_frame _ _).1, Mailboxes.waiting?_modify]
      split <;> simp
    | some f =>
      rw [sendTo_of_refused ho h]
      exact Iff.rfl

end One

/-! ## Sequences of messages -/

section Sequences

variable {c : Channel M} {o : Outbox M}

theorem sendEach_append (a b : List (NodeId × M)) :
    o.sendEach c (a ++ b) = (o.sendEach c a).sendEach c b := List.foldl_append

theorem sendEach_cons (l : NodeId × M) (letters : List (NodeId × M)) :
    o.sendEach c (l :: letters) = (o.sendTo c l.1 l.2).sendEach c letters := rfl

theorem sendEach_of_failed (h : o.failure.isSome) (letters : List (NodeId × M)) :
    o.sendEach c letters = o :=
  foldl_sendTo_of_failed h Prod.fst Prod.snd letters

/-- The first letter of a sequence fails, or the failure is that of the others. -/
theorem failure_sendEach_cons (ho : o.failure = none) (l : NodeId × M)
    (letters : List (NodeId × M)) :
    (o.sendEach c (l :: letters)).failure =
      match c.refusal? o.mail l.1 with
      | some f => some f
      | none => ((o.sendTo c l.1 l.2).sendEach c letters).failure := by
  rw [sendEach_cons]
  cases h : c.refusal? o.mail l.1 with
  | none => rfl
  | some f =>
    rw [sendTo_of_refused ho h, sendEach_of_failed rfl]
    rfl

/-- The failure of a sequence of letters is that of the first one that is refused when its turn
    comes. -/
theorem failure_sendEach_iff (ho : o.failure = none) {letters : List (NodeId × M)}
    {f : SendFailure} :
    (o.sendEach c letters).failure = some f ↔
      ∃ before l after, letters = before ++ l :: after ∧ (o.sendEach c before).failure = none ∧
        c.refusal? (o.sendEach c before).mail l.1 = some f := by
  induction letters generalizing o with
  | nil => simp [sendEach, ho]
  | cons first letters ih =>
    have hsent := failure_sendTo_eq c o first.1 first.2
    rw [ho, Option.none_or] at hsent
    rw [failure_sendEach_cons ho]
    cases hrefusal : c.refusal? o.mail first.1 with
    | some e =>
      rw [hrefusal] at hsent
      constructor
      · rintro ⟨⟩
        exact ⟨[], first, letters, rfl, ho, hrefusal⟩
      · rintro ⟨before, l, after, hsplit, hopen, hlast⟩
        cases before with
        | nil =>
          obtain rfl : first = l := (List.cons.inj hsplit).1
          exact hrefusal.symm.trans hlast
        | cons b before =>
          obtain rfl : first = b := (List.cons.inj hsplit).1
          rw [sendEach_cons, sendEach_of_failed (Option.isSome_of_eq_some hsent), hsent] at hopen
          cases hopen
    | none =>
      rw [hrefusal] at hsent
      dsimp only
      rw [ih hsent]
      constructor
      · rintro ⟨before, l, after, rfl, hopen, hlast⟩
        exact ⟨first :: before, l, after, rfl, hopen, hlast⟩
      · rintro ⟨before, l, after, hsplit, hopen, hlast⟩
        cases before with
        | nil =>
          obtain rfl : first = l := (List.cons.inj hsplit).1
          cases hrefusal.symm.trans hlast
        | cons b before =>
          obtain ⟨rfl, rfl⟩ := List.cons.inj hsplit
          exact ⟨before, l, after, rfl, hopen, hlast⟩

/-- A target that is recorded is that of the first letter whose target is out of reach. -/
theorem find?_of_unknownTarget (ho : o.failure = none) {letters : List (NodeId × M)}
    {target : NodeId} (h : (o.sendEach c letters).failure = some (.unknownTarget target)) :
    (letters.find? fun l => ¬ c.Reaches o.mail l.1).map Prod.fst = some target := by
  induction letters generalizing o with
  | nil => simp [sendEach, ho] at h
  | cons l letters ih =>
    rw [failure_sendEach_cons ho] at h
    rw [List.find?_cons]
    by_cases hreach : c.Reaches o.mail l.1
    · rw [decide_eq_false (by simpa using hreach)]
      rcases Channel.refusal?_of_reaches hreach with hnone | ⟨-, e, hfull⟩
      · rw [hnone] at h
        -- the letters that follow are judged by the mailboxes of the start, which stay the same
        have hrest := ih (by rw [failure_sendTo_eq, ho, hnone]; rfl) h
        simpa only [reaches_sendTo] using hrest
      · rw [hfull] at h
        cases h
    · rw [decide_eq_true hreach]
      rw [Channel.refusal?_of_not_reaches hreach] at h
      cases h
      rfl

/-- If mailboxes grow as needed, only targets out of reach are failures. -/
theorem failure_sendEach_of_grows (hgrows : ∀ mail v, c.grows mail v)
    (o : Outbox M) (letters : List (NodeId × M)) :
    (o.sendEach c letters).failure = o.failure.or
      ((letters.find? fun l => ¬ c.Reaches o.mail l.1).map fun l => .unknownTarget l.1) := by
  have hrefusal : ∀ mail target, c.refusal? mail target =
      if c.Reaches mail target then none else some (.unknownTarget target) := by
    intro mail target
    split
    · next hreach =>
      rcases Channel.refusal?_of_reaches hreach with hnone | ⟨hfull, -⟩
      · exact hnone
      · simp [hgrows] at hfull
    · next hreach => exact Channel.refusal?_of_not_reaches hreach
  induction letters generalizing o with
  | nil => simp [sendEach]
  | cons l letters ih =>
    have hrest := ih (o.sendTo c l.1 l.2)
    simp only [reaches_sendTo, failure_sendTo_eq, hrefusal, Option.or_assoc] at hrest
    rw [sendEach_cons]
    refine hrest.trans (congrArg o.failure.or ?_)
    rw [List.find?_cons]
    split <;> simp_all

end Sequences

/-! ## Broadcasts -/

section Broadcasts

variable {c : Channel M} {g : Graph W} {node : NodeId} {o : Outbox M}

theorem foldl_relationships_eq_sendEach (c : Channel M) (g : Graph W) (node : NodeId)
    (o : Outbox M) (message : M) :
    (g.relationships node).foldl (fun o r => o.sendTo c r.1 message) o =
      o.sendEach c ((g.neighbors node).map (·, message)) := by
  rw [sendEach, Graph.neighbors, List.map_map, List.foldl_map]
  rfl

theorem visit_sendTo (c : Channel M) (g : Graph W) (node : NodeId) (o : Outbox M) (message : M) :
    g.visit node (fun o target _ => (o.sendTo c target message, true)) o =
      (o.sendEach c ((g.neighbors node).map (·, message)), g.fault? node) := by
  rw [Graph.visit, Graph.visitAll_eq_foldl, foldl_relationships_eq_sendEach]

/-- A broadcast meets a fault in the relationships exactly if nothing has failed on the way there,
    or there was nothing on the way. -/
theorem sendToNeighbors_eq (c : Channel M) (g : Graph W) (node : NodeId) (o : Outbox M)
    (message : M) :
    o.sendToNeighbors c g node message =
      let sent := o.sendEach c ((g.neighbors node).map (·, message))
      match g.fault? node with
      | none => sent
      | some fault =>
        if g.neighbors node = [] ∨ sent.failure = none then sent.fail (.unreadable fault)
        else sent := by
  unfold sendToNeighbors Graph.visit
  rw [visitAll_sendTo, foldl_relationships_eq_sendEach]
  generalize o.sendEach c ((g.neighbors node).map (·, message)) = sent
  have hgo : ((g.relationships node).isEmpty || sent.failure.isNone) =
      decide (g.neighbors node = [] ∨ sent.failure = none) := by
    rw [Bool.eq_iff_iff]
    simp [Graph.neighbors]
  rw [hgo]
  by_cases h : g.neighbors node = [] ∨ sent.failure = none
  · rw [decide_eq_true h]
    cases g.fault? node with
    | none => rfl
    | some fault => exact (if_pos h).symm
  · rw [decide_eq_false h]
    cases g.fault? node with
    | none => rfl
    | some fault => exact (if_neg h).symm

/-- A step that has met a fault in its relationships stays failed by it. -/
theorem failure_sendAll_of_unreadable {fault : ReadFault} (hfault : g.fault? node = some fault)
    (ho : o.failure = some (.unreadable fault)) (sends : List (Send M)) :
    (o.sendAll c g node sends).failure = some (.unreadable fault) := by
  unfold sendAll
  induction sends generalizing o with
  | nil => exact ho
  | cons send sends ih =>
    refine ih ?_
    match send with
    | .to target message => exact failure_sendTo ho target message
    | .toNeighbors message =>
      simp only [sendToNeighbors_eq, hfault, sendEach_of_failed (Option.isSome_of_eq_some ho)]
      split
      · rfl
      · exact ho

/-- A step sends letter by letter, or has met a fault in its relationships. -/
theorem sendAll_eq_or_unreadable (c : Channel M) (g : Graph W) (node : NodeId) (o : Outbox M)
    (sends : List (Send M)) :
    o.sendAll c g node sends = o.sendEach c (sends.flatMap (Send.expand g node)) ∨
      ∃ fault, g.fault? node = some fault ∧
        (o.sendAll c g node sends).failure = some (.unreadable fault) := by
  induction sends generalizing o with
  | nil => exact .inl rfl
  | cons send sends ih =>
    rw [List.flatMap_cons, sendEach_append]
    match send with
    | .to target message => exact ih (o.sendTo c target message)
    | .toNeighbors message =>
      have hsent : o.sendToNeighbors c g node message =
            o.sendEach c ((Send.toNeighbors message).expand g node) ∨
          ∃ fault, g.fault? node = some fault ∧
            (o.sendToNeighbors c g node message).failure = some (.unreadable fault) := by
        rw [sendToNeighbors_eq]
        cases g.fault? node with
        | none => exact .inl rfl
        | some fault =>
          dsimp only
          split
          · exact .inr ⟨fault, rfl, rfl⟩
          · exact .inl rfl
      rcases hsent with hsent | ⟨fault, hfault, hfailed⟩
      · rw [← hsent]
        exact ih (o.sendToNeighbors c g node message)
      · exact .inr ⟨fault, hfault, failure_sendAll_of_unreadable hfault hfailed sends⟩

/-- Any outbox, also one with a failure, and any graph, also one with relationships that leave it or
    cannot be read. A broadcast leaves the outbox as single messages do that are sent along all
    relationships that can be read, without stopping; it does not get to a fault in the
    relationships if a message has failed before. So a step with broadcasts leaves what its letters
    leave, unless it has met such a fault. What follows a failure changes nothing. Where there was
    none before, the failure of letters is that of the first one that is refused when its turn
    comes; if a target is recorded, it is the first one out of reach; and if mailboxes grow as
    needed, the first target out of reach is recorded. -/
theorem broadcast_eq_sends (c : Channel M) (g : Graph W) (node : NodeId) (o : Outbox M) :
    (∀ message,
      let sent := o.sendEach c ((g.neighbors node).map (·, message))
      g.visit node (fun o target _ => (o.sendTo c target message, true)) o =
          (sent, g.fault? node) ∧
        o.sendToNeighbors c g node message =
          match g.fault? node with
          | none => sent
          | some fault =>
            if g.neighbors node = [] ∨ sent.failure = none then sent.fail (.unreadable fault)
            else sent) ∧
    (∀ sends, o.sendAll c g node sends = o.sendEach c (sends.flatMap (Send.expand g node)) ∨
      ∃ fault, g.fault? node = some fault ∧
        (o.sendAll c g node sends).failure = some (.unreadable fault)) ∧
    (∀ letters more, o.sendEach c (letters ++ more) =
      if (o.sendEach c letters).failure.isSome then o.sendEach c letters
      else (o.sendEach c letters).sendEach c more) ∧
    (o.failure = none → ∀ letters f,
      ((o.sendEach c letters).failure = some f ↔
        ∃ before l after, letters = before ++ l :: after ∧ (o.sendEach c before).failure = none ∧
          c.refusal? (o.sendEach c before).mail l.1 = some f) ∧
      ∀ target, f = .unknownTarget target → (o.sendEach c letters).failure = some f →
        (letters.find? fun l => ¬ c.Reaches o.mail l.1).map Prod.fst = some target) ∧
    ((∀ mail v, c.grows mail v) → ∀ letters, (o.sendEach c letters).failure = o.failure.or
      ((letters.find? fun l => ¬ c.Reaches o.mail l.1).map fun l => .unknownTarget l.1)) := by
  refine ⟨fun message => ⟨visit_sendTo c g node o message, sendToNeighbors_eq c g node o message⟩,
    sendAll_eq_or_unreadable c g node o, fun letters more => ?_, fun ho letters f => ⟨?_, ?_⟩,
    fun hgrows => failure_sendEach_of_grows hgrows o⟩
  · rw [sendEach_append]
    split
    · next hfailed => exact sendEach_of_failed hfailed more
    · rfl
  · exact failure_sendEach_iff ho
  · rintro target rfl hfailed
    exact find?_of_unknownTarget ho hfailed

end Broadcasts

/-! ## Broadcasts that are cut short -/

/-- One node with two relationships, of which the second one is missing. The first one leads out of
    the graph. -/
def severed : OffsetTable Float := ⟨#[0, 2], #[⟨5⟩], some #[1.0]⟩

/-- One node with two relationships: to itself, and out of the graph. -/
def straying : OffsetTable Float := ⟨#[0, 2], #[⟨0⟩, ⟨5⟩], none⟩

/-- Nothing has been sent yet among `n` nodes of a small graph. -/
def unused (n : Nat) : Outbox (Unsigned 64) where
  mail :=
    let boxes : PagedArray (Array (Unsigned 64)) := ⟨#[Array.replicate n #[]], n, 14⟩
    ⟨boxes, boxes⟩
  next := ⟨#[0], n⟩
  tally := .zero
  failure := none

/-- Superstep 0 of a graph with one node, with mailboxes that can grow or not. -/
def oneNode (grows : Bool) : Channel (Unsigned 64) := ⟨.keep, 0, 1, fun _ _ => grows⟩

/-- On the first graph the broadcast stops at the target out of reach, before it gets to the missing
    relationship, while the single messages cannot all be sent: their walk breaks off. On the second
    graph, with mailboxes that cannot grow, the failure is that of the first message, whose target
    is in reach, and not that of the first target out of reach. -/
theorem broadcast_cut_short :
    ((unused 1).sendToNeighbors (oneNode true) severed.toGraph ⟨0⟩ ⟨7⟩).failure =
        some (.unknownTarget ⟨5⟩) ∧
      (severed.toGraph.visit ⟨0⟩ (fun o target _ => (o.sendTo (oneNode true) target ⟨7⟩, true))
        (unused 1)).2 = some (.position 1 1) ∧
      ((unused 1).sendToNeighbors (oneNode false) straying.toGraph ⟨0⟩ ⟨7⟩).failure =
        some (.allocation ⟨1⟩) ∧
      (straying.toGraph.neighbors ⟨0⟩).find?
        (fun target => ¬ (oneNode false).Reaches (unused 1).mail target) = some ⟨5⟩ := by
  decide +kernel

end Outbox

end Superstep
