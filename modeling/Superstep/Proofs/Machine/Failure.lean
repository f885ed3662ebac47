import Superstep.Proofs.Machine.Frame

/-!
# How a step fails

While the messages of a step go out, the workers note one by one what becomes of them, and what they
have noted in the end decides how the step fails. `Program.Fails` says it of the step as a whole: it
panics where it cannot read its relationships; else it fails as it says itself, by a panic or an
error; else it fails by the first of its messages that goes to no node of the graph.

Results:
* `Send.foldl_note_of_breaks`, `Send.foldl_note_eq`: what is noted of all messages of a step.
* `fails_iff`: how a step fails.
* `not_fails`: a step that does not.
-/

namespace Superstep

/-! ## What is noted of the messages of a step -/

section

variable {W M : Type} {g : Graph W} {node : NodeId} {n : UInt64}

/-- The first message that goes to no node of the graph. -/
def firstMisdirected? (n : UInt64) (letters : List (NodeId × M)) : Option (NodeId × M) :=
  letters.find? fun l => n.toNat ≤ l.1.index

/-- The messages cannot be sent because `fault` is met in the relationships of the sender. A walk
    over them gets there if it has nobody to send to on its way, or if all messages so far go to
    nodes of the graph. -/
def Send.Breaks (g : Graph W) (node : NodeId) (sends : List (Send M)) (fault : ReadFault) : Prop :=
  g.fault? node = some fault ∧ ∃ before m after, sends = before ++ .toNeighbors m :: after ∧
    (g.neighbors node = [] ∨ firstMisdirected? g.nodeCount
      ((before ++ [.toNeighbors m]).flatMap (Send.expand g node)) = none)

theorem firstMisdirected?_append (a b : List (NodeId × M)) :
    firstMisdirected? n (a ++ b) = (firstMisdirected? n a).or (firstMisdirected? n b) :=
  List.find?_append

/-- A message that goes to no node of the graph is lost, and the first one that is lost counts. -/
theorem note_message (lost : Option SendFailure) (target : NodeId) (m : M) :
    (Attempt.message target m).note n lost =
      lost.or ((firstMisdirected? n [(target, m)]).map fun l => .unknownTarget l.1) := by
  have hlarge : target.val ≥ n ↔ n.toNat ≤ target.index := by
    rw [ge_iff_le, UInt64.le_iff_toNat_le]
    rfl
  unfold Attempt.note firstMisdirected?
  by_cases hle : n.toNat ≤ target.index
  · cases lost <;> simp [hlarge, hle]
  · cases lost <;> simp [hlarge, hle]

theorem foldl_note_messages (lost : Option SendFailure) (letters : List (NodeId × M)) :
    (letters.map fun l => Attempt.message l.1 l.2).foldl (Attempt.note n) lost =
      lost.or ((firstMisdirected? n letters).map fun l => .unknownTarget l.1) := by
  induction letters generalizing lost with
  | nil => simp [firstMisdirected?]
  | cons l letters ih =>
    rw [List.map_cons, List.foldl_cons, ih, note_message, Option.or_assoc, ← Option.map_or,
      ← firstMisdirected?_append, List.singleton_append]

/-- What is attempted: the messages that are sent, and what breaks off a walk over the
    neighbours. -/
theorem Send.attempts_eq (send : Send M) : send.attempts g node =
    (send.expand g node).map (fun l => .message l.1 l.2) ++
      match send with
      | .to _ _ => []
      | .toNeighbors _ => (g.fault? node).toList.map fun fault =>
          .breakOff fault (g.neighbors node).isEmpty := by
  match send with
  | .to target m => rfl
  | .toNeighbors m =>
    unfold attempts expand
    rw [List.map_map]
    rfl

/-- Once the relationships of the sender have turned out to be unreadable, nothing changes it. -/
theorem foldl_note_unreadable {fault : ReadFault} (hfault : g.fault? node = some fault)
    (sends : List (Send M)) :
    (sends.flatMap (Send.attempts g node)).foldl (Attempt.note n) (some (.unreadable fault)) =
      some (.unreadable fault) := by
  induction sends with
  | nil => rfl
  | cons send sends ih =>
    rw [List.flatMap_cons, List.foldl_append, Send.attempts_eq, List.foldl_append,
      foldl_note_messages, Option.some_or]
    match send with
    | .to target m => exact ih
    | .toNeighbors m =>
      rw [hfault]
      have hnote : ∀ unread, (Attempt.breakOff fault unread : Attempt M).note n
          (some (.unreadable fault)) = some (.unreadable fault) := by
        intro unread
        cases unread <;> rfl
      simp only [Option.toList_some, List.map_cons, List.map_nil, List.foldl_cons, List.foldl_nil,
        hnote]
      exact ih

/-- What has become of a step after a walk over its neighbours. -/
theorem foldl_note_toNeighbors (lost : Option SendFailure) (m : M) :
    ((Send.toNeighbors m).attempts g node).foldl (Attempt.note n) lost =
      let lost := lost.or ((firstMisdirected? n ((Send.toNeighbors m).expand g node)).map
        fun l => .unknownTarget l.1)
      match g.fault? node with
      | none => lost
      | some fault =>
        if g.neighbors node = [] ∨ lost = none then some (.unreadable fault) else lost := by
  rw [Send.attempts_eq, List.foldl_append, foldl_note_messages]
  generalize lost.or ((firstMisdirected? n ((Send.toNeighbors m).expand g node)).map
    fun l => .unknownTarget l.1) = lost
  cases g.fault? node with
  | none => rfl
  | some fault =>
    simp [Attempt.note, List.isEmpty_iff]

/-- While all messages go to nodes of the graph, the only thing that can be noted is that the
    relationships of the sender are unreadable. -/
theorem foldl_note_of_directed {fault : ReadFault} (hfault : g.fault? node = some fault)
    {sends : List (Send M)}
    (h : firstMisdirected? n (sends.flatMap (Send.expand g node)) = none) :
    (sends.flatMap (Send.attempts g node)).foldl (Attempt.note n) none = none ∨
      (sends.flatMap (Send.attempts g node)).foldl (Attempt.note n) none =
        some (.unreadable fault) := by
  induction sends with
  | nil => exact .inl rfl
  | cons send sends ih =>
    rw [List.flatMap_cons, firstMisdirected?_append, Option.or_eq_none_iff] at h
    obtain ⟨hsend, hsends⟩ := h
    rw [List.flatMap_cons, List.foldl_append]
    match send with
    | .to target m =>
      rw [Send.attempts_eq, List.append_nil, foldl_note_messages, hsend]
      exact ih hsends
    | .toNeighbors m =>
      rw [foldl_note_toNeighbors, hsend, hfault]
      simp only [Option.map_none, Option.or_none, or_true, if_true]
      exact .inr (foldl_note_unreadable hfault sends)

namespace Send

/-- A step that meets a fault in its relationships is noted to have met it. -/
theorem foldl_note_of_breaks {sends : List (Send M)} {fault : ReadFault}
    (h : Breaks g node sends fault) :
    (sends.flatMap (attempts g node)).foldl (Attempt.note g.nodeCount) none =
      some (.unreadable fault) := by
  obtain ⟨hfault, before, m, after, rfl, hreached⟩ := h
  rw [List.flatMap_append, List.foldl_append, List.flatMap_cons, List.foldl_append,
    foldl_note_toNeighbors, hfault]
  suffices hmet : (if g.neighbors node = [] ∨
      ((before.flatMap (attempts g node)).foldl (Attempt.note g.nodeCount) none).or
        ((firstMisdirected? g.nodeCount ((toNeighbors m).expand g node)).map
          fun l => .unknownTarget l.1) = none
      then some (.unreadable fault)
      else ((before.flatMap (attempts g node)).foldl (Attempt.note g.nodeCount) none).or
        ((firstMisdirected? g.nodeCount ((toNeighbors m).expand g node)).map
          fun l => .unknownTarget l.1)) = some (SendFailure.unreadable fault) by
    simp only [hmet]
    exact foldl_note_unreadable hfault after
  rcases hreached with hempty | hdirected
  · exact if_pos (.inl hempty)
  · rw [List.flatMap_append, firstMisdirected?_append, Option.or_eq_none_iff,
      List.flatMap_singleton] at hdirected
    obtain ⟨hbefore, hlast⟩ := hdirected
    rw [hlast]
    rcases foldl_note_of_directed hfault hbefore with hnone | hunreadable
    · rw [hnone]
      simp
    · rw [hunreadable]
      simp

/-- Of any other step the first message that goes to no node of the graph is noted. -/
theorem foldl_note_eq {sends : List (Send M)} (h : ∀ fault, ¬ Breaks g node sends fault) :
    (sends.flatMap (attempts g node)).foldl (Attempt.note g.nodeCount) none =
      (firstMisdirected? g.nodeCount (sends.flatMap (expand g node))).map
        fun l => .unknownTarget l.1 := by
  induction sends using List.reverseRecOn with
  | nil => rfl
  | append_singleton sends send ih =>
    have hprefix : ∀ fault, ¬ Breaks g node sends fault := by
      rintro fault ⟨hfault, before, m, after, rfl, hreached⟩
      exact h fault ⟨hfault, before, m, after ++ [send], by simp, hreached⟩
    rw [List.flatMap_append, List.foldl_append, List.flatMap_singleton, ih hprefix,
      List.flatMap_append, List.flatMap_singleton, firstMisdirected?_append, Option.map_or]
    match send with
    | .to target m => rw [attempts_eq, List.append_nil, foldl_note_messages]
    | .toNeighbors m =>
      rw [foldl_note_toNeighbors, ← Option.map_or, ← firstMisdirected?_append]
      cases hfault : g.fault? node with
      | none => rfl
      | some fault =>
        -- The walk has not got to the fault.
        refine if_neg ?_
        intro hreached
        refine h fault ⟨hfault, sends, m, [], rfl, hreached.imp_right ?_⟩
        intro hnone
        rw [Option.map_eq_none_iff] at hnone
        rw [List.flatMap_append, List.flatMap_singleton]
        exact hnone

end Send

end

/-! ## How a step fails -/

namespace Program

variable {W V M : Type}

/-- How the step of node `i` fails in superstep `t`. -/
inductive Fails (p : Program W V M) (f : Frame V M) (t i : Nat) : RunError → Prop
  /-- The step panics where it cannot read its relationships. -/
  | unreadable {fault : ReadFault} :
    Send.Breaks p.graph (.ofIndex i) (p.outcome f t i).sends fault →
      Fails p f t i (.computationPanicked (.ofIndex i) t fault.message)
  | panic {payload : PanicPayload} :
    (∀ fault, ¬ Send.Breaks p.graph (.ofIndex i) (p.outcome f t i).sends fault) →
      (p.outcome f t i).failure = some (.panic payload) →
        Fails p f t i (.computationPanicked (.ofIndex i) t payload.message)
  | error {reason : String} :
    (∀ fault, ¬ Send.Breaks p.graph (.ofIndex i) (p.outcome f t i).sends fault) →
      (p.outcome f t i).failure = some (.error reason) →
        Fails p f t i (.computation (.ofIndex i) t reason)
  /-- The step itself does not fail, but its first message to an id that is not of the graph
      does. -/
  | target {l : NodeId × M} :
    (∀ fault, ¬ Send.Breaks p.graph (.ofIndex i) (p.outcome f t i).sends fault) →
      (p.outcome f t i).failure = none →
        firstMisdirected? p.graph.nodeCount (p.letters f t i) = some l →
          Fails p f t i (.invalidTarget (.ofIndex i) t l.1 p.graph.nodeCount)

variable {p : Program W V M} {f : Frame V M} {t i : Nat} {e : RunError}

/-- What the workers take for the failure of a step is how the step fails. -/
theorem fails_iff : p.Fails f t i e ↔ p.failure? f t i = some e := by
  by_cases hbreaks : ∃ fault, Send.Breaks p.graph (.ofIndex i) (p.outcome f t i).sends fault
  · obtain ⟨fault, hfault⟩ := hbreaks
    have hfailure : p.failure? f t i =
        some (.computationPanicked (.ofIndex i) t fault.message) := by
      unfold failure? attempts
      rw [Send.foldl_note_of_breaks hfault]
      cases (p.outcome f t i).failure <;> rfl
    rw [hfailure, Option.some.injEq]
    constructor
    · intro h
      cases h with
      | unreadable h =>
        rw [Option.some.inj (h.1.symm.trans hfault.1)]
      | panic hnot => exact absurd hfault (hnot fault)
      | error hnot => exact absurd hfault (hnot fault)
      | target hnot => exact absurd hfault (hnot fault)
    · rintro rfl
      exact .unreadable hfault
  · have hnot := not_exists.1 hbreaks
    have hlost : (p.attempts f t i).foldl (Attempt.note p.graph.nodeCount) none =
        (firstMisdirected? p.graph.nodeCount (p.letters f t i)).map fun l => .unknownTarget l.1 :=
      Send.foldl_note_eq hnot
    unfold failure?
    rw [hlost]
    constructor
    · intro h
      cases h with
      | unreadable h => exact absurd h (hnot _)
      | panic _ hpanic =>
        rw [hpanic]
        cases firstMisdirected? p.graph.nodeCount (p.letters f t i) <;> rfl
      | error _ herror =>
        rw [herror]
        cases firstMisdirected? p.graph.nodeCount (p.letters f t i) <;> rfl
      | target _ hnone hfirst =>
        rw [hnone, hfirst]
        rfl
    · intro h
      cases hfailure : (p.outcome f t i).failure with
      | some failure =>
        rw [hfailure] at h
        cases failure with
        | error reason =>
          cases hfirst : firstMisdirected? p.graph.nodeCount (p.letters f t i) <;>
          · rw [hfirst] at h
            cases h
            exact .error hnot hfailure
        | panic payload =>
          cases hfirst : firstMisdirected? p.graph.nodeCount (p.letters f t i) <;>
          · rw [hfirst] at h
            cases h
            exact .panic hnot hfailure
      | none =>
        rw [hfailure] at h
        cases hfirst : firstMisdirected? p.graph.nodeCount (p.letters f t i) with
        | none =>
          rw [hfirst] at h
          cases h
        | some l =>
          rw [hfirst] at h
          cases h
          exact .target hnot hfailure hfirst

/-- A step that can read its relationships, says nothing of a failure and sends to nodes of the
    graph only does not fail. -/
theorem not_fails (hread : p.graph.fault? (.ofIndex i) = none)
    (hfailure : (p.outcome f t i).failure = none)
    (hletters : ∀ l ∈ p.letters f t i, l.1.index < p.nodeCount) : ¬ p.Fails f t i e := by
  intro h
  cases h with
  | unreadable h => cases hread.symm.trans h.1
  | panic _ h => cases hfailure.symm.trans h
  | error _ h => cases hfailure.symm.trans h
  | @target l _ _ h =>
    have hlarge := List.find?_some h
    have hlt : l.1.index < p.graph.nodeCount.toNat := hletters l (List.mem_of_find?_eq_some h)
    simp only [decide_eq_true_eq] at hlarge
    omega

/-- A step that can read its relationships fails exactly if it says so itself, or if one of its
    messages goes to no node of the graph. -/
theorem failure?_eq_none_iff (hread : p.graph.fault? (.ofIndex i) = none) :
    p.failure? f t i = none ↔ (p.outcome f t i).failure = none ∧
      ∀ l ∈ p.letters f t i, l.1.index < p.nodeCount := by
  constructor
  · intro h
    exact ⟨(Worker.lost_of_failureOf? h).1, letters_of_failure? h⟩
  · rintro ⟨hfailure, hletters⟩
    rw [Option.eq_none_iff_forall_ne_some]
    intro e he
    exact not_fails hread hfailure hletters (fails_iff.2 he)

theorem Fails.location? (h : p.Fails f t i e) : e.location? = some (.ofIndex i, t) := by
  cases h <;> rfl

theorem flawless_iff : p.Flawless f t ↔ ∀ i ∈ f.active, ∀ e, ¬ p.Fails f t i e := by
  refine forall₂_congr fun i _ => ?_
  simp only [fails_iff, Option.eq_none_iff_forall_ne_some, ne_eq]

end Program

end Superstep
