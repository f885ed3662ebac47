import Superstep.Proofs.Graph.CountingSort

/-!
# Requests to a builder

A builder serves requests: to store what follows in both directions, to add a relationship, and to
freeze a copy of itself. An addition works in place (`addInPlace`): it makes its tests and then
changes the arrays one after the other, and what is changed before an error stays changed.

Results:
* `addEither_eq_error_iff`: an addition fails exactly for the reasons of `Refuses`.
* `serve_add`: in place, an addition does what `addEither` says, or nothing.
* `Holds.serve`: a request keeps the account of what a builder holds after the additions that it has
  accepted.
* `additions_determine_builder`: so does every sequence of requests, and the accepted additions
  alone determine what is frozen.
-/

namespace Superstep.Builder

variable {W : Type} [Weight W]

/-! ## Refusals -/

/-- Why a builder refuses an addition. Both end points are looked at before the weight, and the
    weight before what is stored already. -/
inductive Refuses (b : Builder W) (source target : NodeId) : Option W → AddError → Prop where
  | source {weight : Option W} (h : ¬ source.val < b.nodeCount) :
      Refuses b source target weight (.nodeNotFound source b.nodeCount)
  | target {weight : Option W} (hsource : source.val < b.nodeCount)
      (h : ¬ target.val < b.nodeCount) :
      Refuses b source target weight (.nodeNotFound target b.nodeCount)
  | notFinite {w : W} (hsource : source.val < b.nodeCount) (htarget : target.val < b.nodeCount)
      (h : ¬ Weight.isFinite w) :
      Refuses b source target (some w)
        (.invalid (.weightNotFinite source target (String.ofList (Weight.digits w))))
  | missing (hsource : source.val < b.nodeCount) (htarget : target.val < b.nodeCount)
      (h : ¬ b.Agrees (none : Option W)) :
      Refuses b source target none (.invalid (.weightMissing source target))
  | unexpected {w : W} (hsource : source.val < b.nodeCount) (htarget : target.val < b.nodeCount)
      (hfinite : Weight.isFinite w) (h : ¬ b.Agrees (some w)) :
      Refuses b source target (some w) (.invalid (.weightUnexpected source target))

/-- The reason for which a weight, or none, is refused between two nodes. -/
def weightRefusal? (b : Builder W) (source target : NodeId) : Option W → Option AddError
  | none => if b.weights.isSome then some (.invalid (.weightMissing source target)) else none
  | some w =>
    if !Weight.isFinite w then
      some (.invalid (.weightNotFinite source target (String.ofList (Weight.digits w))))
    else if b.weights.isNone && b.relationships.size != 0 then
      some (.invalid (.weightUnexpected source target))
    else none

/-- The reason for which an addition is refused. -/
def refusal? (b : Builder W) (source target : NodeId) (weight : Option W) : Option AddError :=
  if source.val < b.nodeCount then
    if target.val < b.nodeCount then b.weightRefusal? source target weight
    else some (.nodeNotFound target b.nodeCount)
  else some (.nodeNotFound source b.nodeCount)

section Refusals

variable {b : Builder W} {source target : NodeId} {weight : Option W} {e : AddError}

/-- An addition stores the relationship unless there is a reason to refuse it. -/
theorem addEither_eq (b : Builder W) (source target : NodeId) (weight : Option W) :
    b.addEither source target weight =
      match b.refusal? source target weight with
      | none => .ok (b.push source target weight)
      | some e => .error e := by
  unfold refusal?
  by_cases hs : source.val < b.nodeCount
  · by_cases ht : target.val < b.nodeCount
    · cases weight with
      | none =>
        by_cases hw : b.weights.isSome <;>
          simp [addEither, add, checkNode, weightRefusal?, hs, ht, hw, bind, Except.bind, pure,
            Except.pure, throw, throwThe, MonadExceptOf.throw]
      | some w =>
        by_cases hf : Weight.isFinite w <;>
          by_cases hk : (b.weights.isNone && b.relationships.size != 0) <;>
            simp [addEither, addWeighted, checkNode, weightRefusal?, hs, ht, hf, hk, bind,
              Except.bind, pure, Except.pure, throw, throwThe, MonadExceptOf.throw]
    · cases weight <;>
        simp [addEither, add, addWeighted, checkNode, hs, ht, bind, Except.bind]
  · cases weight <;>
      simp [addEither, add, addWeighted, checkNode, hs, bind, Except.bind]

/-- An addition is refused for the reasons of `Refuses`. -/
theorem refusal?_eq_some_iff (h : b.Sound) :
    b.refusal? source target weight = some e ↔ b.Refuses source target weight e := by
  unfold refusal?
  constructor
  · intro he
    split_ifs at he with hs ht
    · cases weight with
      | none =>
        simp only [weightRefusal?] at he
        split_ifs at he with hw
        obtain rfl := Option.some.inj he
        exact .missing hs ht fun hagrees => h.agrees_none_iff.1 hagrees hw
      | some w =>
        simp only [weightRefusal?] at he
        split_ifs at he with hf hk <;> obtain rfl := Option.some.inj he
        · exact .notFinite hs ht (by simpa using hf)
        · exact .unexpected hs ht (by simpa using hf) fun hagrees => agrees_some_iff.1 hagrees hk
    · obtain rfl := Option.some.inj he
      exact .target hs ht
    · obtain rfl := Option.some.inj he
      exact .source hs
  · intro hr
    cases hr with
    | source hs => rw [if_neg hs]
    | target hs ht => rw [if_pos hs, if_neg ht]
    | notFinite hs ht hf => rw [if_pos hs, if_pos ht, weightRefusal?, if_pos (by simpa using hf)]
    | missing hs ht hw =>
      rw [if_pos hs, if_pos ht, weightRefusal?, if_pos]
      exact not_not.1 fun hnone => hw (h.agrees_none_iff.2 hnone)
    | unexpected hs ht hf hk =>
      rw [if_pos hs, if_pos ht, weightRefusal?, if_neg (by simpa using hf), if_pos]
      exact not_not.1 fun hnone => hk (agrees_some_iff.2 hnone)

theorem addEither_eq_error_iff (h : b.Sound) :
    b.addEither source target weight = .error e ↔ b.Refuses source target weight e := by
  rw [addEither_eq, ← refusal?_eq_some_iff h]
  cases b.refusal? source target weight <;> simp

end Refusals

/-! ## Additions in place -/

/-- A change of a builder that may be refused. What has been changed by then stays changed. -/
abbrev Change (W : Type) : Type → Type := ExceptT AddError (StateM (Builder W))

section InPlace

variable {W : Type} {α β : Type} {b b' : Builder W} {x : Change W α} {f : α → Change W β}

theorem Change.bind_of_ok {a : α} (h : x.run.run b = (.ok a, b')) :
    (x >>= f).run.run b = (f a).run.run b' := by
  rw [ExceptT.run_bind, StateT.run_bind, h]
  rfl

theorem Change.bind_of_error {e : AddError} (h : x.run.run b = (.error e, b')) :
    (x >>= f).run.run b = (.error e, b') := by
  rw [ExceptT.run_bind, StateT.run_bind, h]
  rfl

theorem Change.bind_get (b : Builder W) (f : Builder W → Change W β) :
    ((get : Change W (Builder W)) >>= f).run.run b = (f b).run.run b := rfl

/-- Refuses an id that is not the id of a node. -/
def checkNodeInPlace (id : NodeId) : Change W Unit := do
  let b ← get
  unless id.val < b.nodeCount do throw (.nodeNotFound id b.nodeCount)

/-- Refuses a weight, or none, that does not go with what is stored already. -/
def checkWeightInPlace [Weight W] (source target : NodeId) : Option W → Change W Unit
  | none => do
    if (← get).weights.isSome then throw (.invalid (.weightMissing source target))
  | some w => do
    if !Weight.isFinite w then
      throw (.invalid (.weightNotFinite source target (String.ofList (Weight.digits w))))
    if (← get).weights.isNone && (← get).relationships.size != 0 then
      throw (.invalid (.weightUnexpected source target))

/-- Stores a relationship in one direction: first its end points, then its weight. -/
def storeInPlace (source target : NodeId) (weight : Option W) : Change W Unit := do
  modify fun b => { b with relationships := b.relationships.push (source, target) }
  if let some w := weight then
    modify fun b => { b with weights := some ((b.weights.getD #[]).push w) }

/-- Stores a relationship, and then its reverse if the builder is undirected and it is not a
    self-loop. -/
def pushInPlace (source target : NodeId) (weight : Option W) : Change W Unit := do
  storeInPlace source target weight
  if (← get).undirected && source ≠ target then storeInPlace target source weight

/-- Adds a relationship: makes the tests, and then changes the arrays. -/
def addInPlace [Weight W] (source target : NodeId) (weight : Option W) : Change W Unit := do
  checkNodeInPlace source
  checkNodeInPlace target
  checkWeightInPlace source target weight
  pushInPlace source target weight

theorem run_checkNodeInPlace (b : Builder W) (id : NodeId) :
    (checkNodeInPlace id : Change W Unit).run.run b =
      if id.val < b.nodeCount then (.ok (), b) else (.error (.nodeNotFound id b.nodeCount), b) := by
  unfold checkNodeInPlace
  rw [Change.bind_get]
  split <;> rfl

theorem run_checkWeightInPlace [Weight W] (b : Builder W) (source target : NodeId)
    (weight : Option W) :
    (checkWeightInPlace source target weight).run.run b =
      match b.weightRefusal? source target weight with
      | none => (.ok (), b)
      | some e => (.error e, b) := by
  cases weight with
  | none =>
    rw [checkWeightInPlace, weightRefusal?, Change.bind_get]
    split <;> rfl
  | some w =>
    rw [checkWeightInPlace, weightRefusal?]
    split
    · rfl
    · refine (Change.bind_get b _).trans ((Change.bind_get b _).trans ?_)
      split <;> rfl

theorem run_storeInPlace (b : Builder W) (source target : NodeId) (weight : Option W) :
    (storeInPlace source target weight).run.run b = (.ok (), b.store source target weight) := by
  cases weight <;> rfl

theorem run_pushInPlace (b : Builder W) (source target : NodeId) (weight : Option W) :
    (pushInPlace source target weight).run.run b = (.ok (), b.push source target weight) := by
  have hflag : (b.store source target weight).undirected = b.undirected := rfl
  unfold pushInPlace push
  rw [Change.bind_of_ok (run_storeInPlace b source target weight), Change.bind_get, hflag]
  dsimp only
  split
  · exact run_storeInPlace _ target source weight
  · rfl

/-- In place, an addition changes the whole builder or nothing. -/
theorem run_addInPlace [Weight W] (b : Builder W) (source target : NodeId) (weight : Option W) :
    (addInPlace source target weight).run.run b =
      match b.refusal? source target weight with
      | none => (.ok (), b.push source target weight)
      | some e => (.error e, b) := by
  have hsource := run_checkNodeInPlace b source
  have htarget := run_checkNodeInPlace b target
  have hweight := run_checkWeightInPlace b source target weight
  unfold refusal? addInPlace
  by_cases hs : source.val < b.nodeCount
  · rw [if_pos hs] at hsource ⊢
    rw [Change.bind_of_ok hsource]
    by_cases ht : target.val < b.nodeCount
    · rw [if_pos ht] at htarget ⊢
      rw [Change.bind_of_ok htarget]
      cases hrefusal : b.weightRefusal? source target weight with
      | some e =>
        rw [hrefusal] at hweight
        exact Change.bind_of_error hweight
      | none =>
        rw [hrefusal] at hweight
        exact (Change.bind_of_ok hweight).trans (run_pushInPlace b source target weight)
    · rw [if_neg ht] at htarget ⊢
      exact Change.bind_of_error htarget
  · rw [if_neg hs] at hsource ⊢
    exact Change.bind_of_error hsource

end InPlace

/-! ## Requests -/

/-- What a builder is asked for. -/
inductive Request (W : Type) where
  /-- To store what is added from now on in both directions. -/
  | undirected
  | add (source target : NodeId) (weight : Option W)
  /-- To freeze a copy. -/
  | build

/-- What a builder answers. -/
inductive Reply (W : Type) where
  | done
  | stored
  | refused (error : AddError)
  | built (result : Except GraphError (OffsetTable W))

/-- The answer to a request, and the builder after it. -/
def serve [Memory.Allocator] (b : Builder W) : Request W → Reply W × Builder W
  | .undirected => (.done, b.asUndirected)
  | .add source target weight =>
    match (addInPlace source target weight).run.run b with
    | (.ok (), b) => (.stored, b)
    | (.error e, b) => (.refused e, b)
  | .build => (.built b.build, b)

/-- The builder after requests. -/
def serveAll [Memory.Allocator] (b : Builder W) (requests : List (Request W)) : Builder W :=
  requests.foldl (fun b request => (b.serve request).2) b

/-- A relationship that a builder has accepted, and whether it was undirected by then. -/
structure Addition (W : Type) where
  source : NodeId
  target : NodeId
  weight : Option W
  undirected : Bool

/-- The addition that a request makes, if it is one that the builder accepts. -/
def accepted [Memory.Allocator] (b : Builder W) (request : Request W) : List (Addition W) :=
  match request, (b.serve request).1 with
  | .add source target weight, .stored => [⟨source, target, weight, b.undirected⟩]
  | _, _ => []

/-- The additions that are accepted of requests. -/
def acceptedAll [Memory.Allocator] (b : Builder W) : List (Request W) → List (Addition W)
  | [] => []
  | request :: requests => b.accepted request ++ (b.serve request).2.acceptedAll requests

namespace Addition

omit [Weight W]

/-- The relationships that an addition stores: its own, and the reverse if the builder was
    undirected and it is not a self-loop. -/
def arcs (a : Addition W) : List (NodeId × NodeId) :=
  (a.source, a.target) ::
    if a.undirected ∧ a.source ≠ a.target then [(a.target, a.source)] else []

/-- The weights that an addition stores: its own, if it has one, for each relationship. -/
def weights (a : Addition W) : List W :=
  a.weight.toList.flatMap fun w => a.arcs.map fun _ => w

end Addition

/-- `b'` is `b` with what an addition stores at the end of its arrays. -/
structure Appended (b : Builder W) (a : Addition W) (b' : Builder W) : Prop where
  nodeCount : b'.nodeCount = b.nodeCount
  undirected : b'.undirected = b.undirected
  relationships : b'.relationships.toList = b.relationships.toList ++ a.arcs
  weights : (b'.weights.getD #[]).toList = (b.weights.getD #[]).toList ++ a.weights
  weighted : b'.weights.isSome = a.weight.isSome

/-- A builder holds what accepted additions have stored. It is weighted if the first of them is. -/
structure Holds (b : Builder W) (additions : List (Addition W)) : Prop where
  sound : b.Sound
  finite : ∀ w ∈ (b.weights.getD #[]).toList, Weight.isFinite w
  relationships : b.relationships.toList = additions.flatMap Addition.arcs
  weights : (b.weights.getD #[]).toList = additions.flatMap Addition.weights
  weighted : b.weights.isSome = (additions.head?.bind Addition.weight).isSome

/-! ## One request -/

section Step

variable {b b' : Builder W} {source target : NodeId} {weight : Option W} {e : AddError}
  {additions : List (Addition W)}

theorem serve_add [Memory.Allocator] (b : Builder W) (source target : NodeId) (weight : Option W) :
    b.serve (.add source target weight) =
      match b.addEither source target weight with
      | .ok b' => (.stored, b')
      | .error e => (.refused e, b) := by
  rw [serve, run_addInPlace, addEither_eq]
  cases b.refusal? source target weight <;> rfl

theorem serve_add_of_error [Memory.Allocator] (hadd : b.addEither source target weight = .error e) :
    b.serve (.add source target weight) = (.refused e, b) := by
  rw [serve_add, hadd]

theorem serve_add_of_ok [Memory.Allocator] (hadd : b.addEither source target weight = .ok b') :
    b.serve (.add source target weight) = (.stored, b') := by
  rw [serve_add, hadd]

omit [Weight W] in
@[simp] theorem relationships_store (b : Builder W) (source target : NodeId) (weight : Option W) :
    (b.store source target weight).relationships = b.relationships.push (source, target) := rfl

omit [Weight W] in
@[simp] theorem weights_store (b : Builder W) (source target : NodeId) (weight : Option W) :
    ((b.store source target weight).weights.getD #[]).toList =
      (b.weights.getD #[]).toList ++ weight.toList := by
  cases weight <;> simp [store]

theorem Accepts.appended_push (ha : b.Accepts source target weight) (h : b.Sound) :
    b.Appended ⟨source, target, weight, b.undirected⟩ (b.push source target weight) where
  nodeCount := nodeCount_push b source target weight
  undirected := undirected_push b source target weight
  relationships := by
    unfold push
    by_cases hboth : b.undirected ∧ source ≠ target <;> simp [hboth, Addition.arcs]
  weights := by
    unfold push
    by_cases hboth : b.undirected ∧ source ≠ target <;> cases weight <;>
      simp [hboth, Addition.weights, Addition.arcs]
  weighted := h.weights_isSome_push ha.agrees source target ha.source ha.target

omit [Weight W] in
theorem Addition.arcs_ne_nil (a : Addition W) : a.arcs ≠ [] := List.cons_ne_nil _ _

theorem Holds.eq_nil_iff (h : b.Holds additions) : b.size = 0 ↔ additions = [] := by
  rw [size, ← Array.length_toList, h.relationships, List.length_eq_zero_iff,
    List.flatMap_eq_nil_iff]
  constructor
  · intro hall
    rw [List.eq_nil_iff_forall_not_mem]
    exact fun a ha => a.arcs_ne_nil (hall a ha)
  · rintro rfl
    simp

theorem Holds.new (nodeCount : UInt64) : (new nodeCount : Builder W).Holds [] :=
  ⟨.new nodeCount, by simp [Builder.new], rfl, rfl, rfl⟩

theorem Holds.asUndirected (h : b.Holds additions) : b.asUndirected.Holds additions :=
  ⟨h.sound.asUndirected, h.finite, h.relationships, h.weights, h.weighted⟩

/-- What is accepted joins the account. -/
theorem Holds.push (h : b.Holds additions) (ha : b.Accepts source target weight) :
    (b.push source target weight).Holds
      (additions ++ [⟨source, target, weight, b.undirected⟩]) := by
  have happended := ha.appended_push h.sound
  refine ⟨ha.sound_push h.sound, ?_, ?_, ?_, ?_⟩
  · rw [happended.weights]
    intro w hw
    rcases List.mem_append.1 hw with hw | hw
    · exact h.finite w hw
    · simp only [Addition.weights, List.mem_flatMap, Option.mem_toList, List.mem_map] at hw
      obtain ⟨w', hw', -, -, rfl⟩ := hw
      exact ha.finite w' hw'
  · rw [happended.relationships, h.relationships, List.flatMap_append, List.flatMap_singleton]
  · rw [happended.weights, h.weights, List.flatMap_append, List.flatMap_singleton]
  · rw [happended.weighted]
    cases hadditions : additions with
    | nil => rfl
    | cons first rest =>
      have hsize : b.size ≠ 0 := fun hsize => by simp [h.eq_nil_iff.1 hsize] at hadditions
      rw [← ha.agrees.resolve_left hsize, h.weighted, hadditions]
      rfl

/-- A request keeps the account of what a builder holds. -/
theorem Holds.serve [Memory.Allocator] (h : b.Holds additions) (request : Request W) :
    (b.serve request).2.Holds (additions ++ b.accepted request) := by
  unfold accepted
  cases request with
  | undirected =>
    rw [List.append_nil]
    exact h.asUndirected
  | build =>
    rw [List.append_nil]
    exact h
  | add source target weight =>
    cases hadd : b.addEither source target weight with
    | error e =>
      rw [serve_add_of_error hadd, List.append_nil]
      exact h
    | ok b' =>
      obtain ⟨ha, rfl⟩ := (addEither_eq_ok_iff h.sound).1 hadd
      rw [serve_add_of_ok hadd]
      exact h.push ha

end Step

/-! ## Sequences of requests -/

section Run

variable {b b' : Builder W} {additions : List (Addition W)}

theorem Holds.serveAll [Memory.Allocator] (h : b.Holds additions) (requests : List (Request W)) :
    (b.serveAll requests).Holds (additions ++ b.acceptedAll requests) := by
  induction requests generalizing b additions with
  | nil =>
    rw [acceptedAll, List.append_nil]
    exact h
  | cons request requests ih =>
    rw [acceptedAll, ← List.append_assoc]
    exact ih (h.serve request)

/-- No request changes the node count, and a builder becomes undirected as soon as it is asked
    to. -/
theorem serve_frame [Memory.Allocator] (b : Builder W) (request : Request W) :
    (b.serve request).2.nodeCount = b.nodeCount ∧
      ((b.serve request).2.undirected ↔ b.undirected ∨ request = .undirected) := by
  cases request with
  | undirected => simp [Builder.serve, asUndirected]
  | build => simp [Builder.serve]
  | add source target weight =>
    rw [Builder.serve, run_addInPlace]
    cases b.refusal? source target weight <;> simp

theorem serveAll_frame [Memory.Allocator] (b : Builder W) (requests : List (Request W)) :
    (b.serveAll requests).nodeCount = b.nodeCount ∧
      ((b.serveAll requests).undirected ↔ b.undirected ∨ .undirected ∈ requests) := by
  induction requests generalizing b with
  | nil => simp [Builder.serveAll]
  | cons request requests ih =>
    obtain ⟨hcount, hflag⟩ := serve_frame b request
    obtain ⟨hcountRest, hflagRest⟩ := ih (b.serve request).2
    refine ⟨hcountRest.trans hcount, hflagRest.trans ?_⟩
    rw [hflag, List.mem_cons, or_assoc, eq_comm (a := request)]

/-- Builders that hold the same are frozen the same, also if only one of them is undirected. -/
theorem Holds.build_eq [Memory.Allocator] (h : b.Holds additions) (h' : b'.Holds additions)
    (hcount : b'.nodeCount = b.nodeCount) : b'.build = b.build := by
  have hrelationships : b'.relationships = b.relationships :=
    Array.toList_inj.1 (h'.relationships.trans h.relationships.symm)
  have hweights : b'.weights = b.weights := by
    have hsome := h'.weighted.trans h.weighted.symm
    have hlist := h'.weights.trans h.weights.symm
    cases hws : b.weights <;> cases hws' : b'.weights <;> simp_all
  unfold build
  rw [hcount, hrelationships, hweights]

/-- Whatever the requests to a new builder, it holds what it has accepted: end points that are
    nodes, and no weights or a finite one for each relationship, depending on the first addition. An
    addition fails exactly for the reasons of `Refuses`, and then nothing changes. Otherwise it goes
    to the end of the arrays, with its reverse if the builder has been asked to be undirected and it
    is not a self-loop. So a frozen copy depends on nothing but the accepted additions. -/
theorem additions_determine_builder [Memory.Allocator] (nodeCount : UInt64)
    (requests : List (Request W)) :
    let b : Builder W := (new nodeCount).serveAll requests
    let additions := (new nodeCount).acceptedAll requests
    b.nodeCount = nodeCount ∧ b.Holds additions ∧ (b.undirected ↔ .undirected ∈ requests) ∧
      (∀ t, b.build = .ok t →
        t.weights.isSome = (additions.head?.bind Addition.weight).isSome) ∧
      (∀ source target weight,
        (∀ e, b.addEither source target weight = .error e ↔ b.Refuses source target weight e) ∧
        (∀ e, b.addEither source target weight = .error e →
          b.serve (.add source target weight) = (.refused e, b)) ∧
        (∀ b', b.addEither source target weight = .ok b' →
          b.serve (.add source target weight) = (.stored, b') ∧
            b.Appended ⟨source, target, weight, b.undirected⟩ b')) ∧
      ∀ requests', (new nodeCount).acceptedAll requests' = additions →
        ((new nodeCount).serveAll requests').build = b.build := by
  intro b additions
  have hholds : ∀ requests, ((new nodeCount : Builder W).serveAll requests).Holds
      ((new nodeCount).acceptedAll requests) := fun requests =>
    (Holds.new nodeCount).serveAll requests
  have hcount : ∀ requests, ((new nodeCount : Builder W).serveAll requests).nodeCount = nodeCount :=
    fun requests => (serveAll_frame (new nodeCount) requests).1
  have h : b.Holds additions := hholds requests
  refine ⟨hcount requests, h, ?_, ?_, ?_, ?_⟩
  · exact (serveAll_frame (new nodeCount) requests).2.trans (by simp [new])
  · exact fun t ht => (isSome_weights_of_build h.sound ht).trans h.weighted
  · intro source target weight
    refine ⟨fun e => addEither_eq_error_iff h.sound, fun e => serve_add_of_error,
      fun b' hadd => ⟨serve_add_of_ok hadd, ?_⟩⟩
    obtain ⟨ha, rfl⟩ := (addEither_eq_ok_iff h.sound).1 hadd
    exact ha.appended_push h.sound
  · intro requests' hsame
    exact h.build_eq (hsame ▸ hholds requests') ((hcount requests').trans (hcount requests).symm)

/-- Requests of which only the first two change the builder. -/
def mixed : List (Request Float) :=
  [.add ⟨0⟩ ⟨1⟩ (some 0.5), .undirected, .add ⟨1⟩ ⟨2⟩ (some 1.5), .add ⟨1⟩ ⟨0⟩ none, .build]

theorem additions_determine_builder_mixed :
    let b : Builder Float := (new 2).serveAll mixed
    b.undirected ∧ b.serve (.add ⟨1⟩ ⟨2⟩ none) = (.refused (.nodeNotFound ⟨2⟩ 2), b) ∧
      b.build = ((new 2).serveAll [.add ⟨0⟩ ⟨1⟩ (some (0.5 : Float)), .undirected]).build := by
  intro b
  obtain ⟨hcount, -, hflag, -, hadd, hbuild⟩ := additions_determine_builder 2 mixed
  obtain ⟨hfails, hrefused, -⟩ := hadd ⟨1⟩ ⟨2⟩ none
  have hrefuses : b.Refuses ⟨1⟩ ⟨2⟩ none (.nodeNotFound ⟨2⟩ b.nodeCount) :=
    .target (by rw [hcount]; decide) (by rw [hcount]; decide)
  rw [hcount] at hrefuses
  refine ⟨hflag.2 ?_, hrefused _ ((hfails _).2 hrefuses), (hbuild _ ?_).symm⟩
  · simp [mixed]
  · rfl

end Run

end Superstep.Builder
