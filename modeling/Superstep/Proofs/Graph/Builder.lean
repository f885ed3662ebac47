import Mathlib.Data.List.Zip
import Mathlib.Tactic.SplitIfs
import Superstep.Graph.Builder

/-!
# What a builder holds

A builder keeps the end points and the weights of its relationships in two arrays. `Sound` says how
they fit together, and `stored` is the one list that they stand for.

Whether an addition is accepted depends on the end points, the weight and what is stored already
(`Accepts`); what it stores does not depend on anything else.

Results: `addEither_eq_ok_iff`, an addition succeeds exactly if it is accepted, and then stores the
relationship; `Sound.push`, what is stored stays sound; `addAll_isOk_iff`, a sequence of additions
succeeds exactly if all end points are nodes, all weights finite and either all or none have
weights; `Added`, what a builder holds after it.
-/

namespace Superstep

theorem exists_of_bind_eq_ok {ε α β : Type} {x : Except ε α} {f : α → Except ε β} {r : β}
    (h : x >>= f = .ok r) : ∃ a, x = .ok a ∧ f a = .ok r := by
  cases x with
  | error e => cases h
  | ok a => exact ⟨a, rfl, h⟩

theorem error_of_bind_eq_error {ε α β : Type} {x : Except ε α} {f : α → Except ε β} {e : ε}
    (h : x >>= f = .error e) : x = .error e ∨ ∃ a, x = .ok a ∧ f a = .error e := by
  cases x with
  | error e' => exact .inl (congrArg _ (Except.error.inj (h : Except.error e' = .error e)))
  | ok a => exact .inr ⟨a, rfl, h⟩

namespace Builder

variable {W : Type}

/-! ## What is stored -/

/-- The end points of what is stored are nodes, and a weighted builder has one weight for each
    relationship, and has one. -/
structure Sound (b : Builder W) : Prop where
  nodes : ∀ r ∈ b.relationships.toList, r.1.val < b.nodeCount ∧ r.2.val < b.nodeCount
  weights : ∀ ws, b.weights = some ws → ws.size = b.relationships.size ∧ 0 < ws.size

/-- The relationships of a builder with their weights; without weights of their own they have unit
    weight. -/
def stored [Weight W] (b : Builder W) : List (NodeId × NodeId × W) :=
  match b.weights with
  | some ws => (b.relationships.toList.zip ws.toList).map fun z => (z.1.1, z.1.2, z.2)
  | none => b.relationships.toList.map fun r => (r.1, r.2, Weight.unit)

section Stored

variable [Weight W] {b : Builder W}

theorem Sound.relationships_eq (h : b.Sound) :
    b.relationships = (b.stored.map fun e => (e.1, e.2.1)).toArray := by
  rw [← Array.toList_inj, stored]
  cases hws : b.weights with
  | some ws =>
    have hsize := (h.weights ws hws).1
    dsimp only
    rw [List.map_map]
    exact (List.map_fst_zip (by simp [hsize])).symm
  | none =>
    dsimp only
    rw [List.map_map]
    exact (List.map_id _).symm

theorem Sound.weights_eq (h : b.Sound) :
    b.weights = if b.weights.isSome then some (b.stored.map fun e => e.2.2).toArray else none := by
  cases hws : b.weights with
  | some ws =>
    have hsize := (h.weights ws hws).1
    simp only [Option.isSome_some, ↓reduceIte, Option.some.injEq, stored, hws]
    rw [← Array.toList_inj, List.map_map]
    exact (List.map_snd_zip (by simp [hsize])).symm
  | none => rfl

end Stored

/-! ## Storing -/

/-- A weight, or none, goes with the relationships that are stored already. -/
def Agrees (b : Builder W) (weight : Option W) : Prop :=
  b.size = 0 ∨ b.weights.isSome = weight.isSome

section Storing

variable {b : Builder W} {source target : NodeId} {weight : Option W}

theorem Sound.new (nodeCount : UInt64) : (new nodeCount : Builder W).Sound :=
  ⟨by simp [Builder.new], by simp [Builder.new]⟩

theorem Sound.asUndirected (h : b.Sound) : b.asUndirected.Sound := ⟨h.nodes, h.weights⟩

theorem Sound.weights_of_empty (h : b.Sound) (hempty : b.size = 0) : b.weights = none := by
  cases hws : b.weights with
  | none => rfl
  | some ws =>
    have := h.weights ws hws
    unfold size at hempty
    omega

theorem Sound.weights_isSome_store (h : b.Sound) (hagrees : b.Agrees weight)
    (source target : NodeId) : (b.store source target weight).weights.isSome = weight.isSome := by
  cases weight with
  | some w => rfl
  | none =>
    rcases hagrees with hempty | hsame
    · simp [store, h.weights_of_empty hempty]
    · exact hsame

theorem Sound.size_weights (h : b.Sound) {w : W} (hagrees : b.Agrees (some w)) :
    (b.weights.getD #[]).size = b.relationships.size := by
  cases hws : b.weights with
  | some ws => exact (h.weights ws hws).1
  | none =>
    rcases hagrees with hempty | hsame
    · exact hempty.symm
    · simp [hws] at hsame

theorem Sound.store (h : b.Sound) (hsource : source.val < b.nodeCount)
    (htarget : target.val < b.nodeCount) (hagrees : b.Agrees weight) :
    (b.store source target weight).Sound where
  nodes r hr := by
    rcases Array.mem_push.1 (Array.mem_toList_iff.1 hr) with hr | rfl
    · exact h.nodes r (Array.mem_toList_iff.2 hr)
    · exact ⟨hsource, htarget⟩
  weights ws hws := by
    have hsome := h.weights_isSome_store hagrees source target
    cases weight with
    | none => simp [hws] at hsome
    | some w =>
      obtain rfl := Option.some.inj hws
      simp [Builder.store, h.size_weights hagrees]

theorem Sound.stored_store [Weight W] (h : b.Sound) (hagrees : b.Agrees weight) :
    (b.store source target weight).stored =
      b.stored ++ [(source, target, weight.getD Weight.unit)] := by
  cases weight with
  | none =>
    have hnone : b.weights = none := by
      simpa [Builder.store] using h.weights_isSome_store hagrees source target
    simp [stored, Builder.store, hnone]
  | some w =>
    have hsize := h.size_weights hagrees
    cases hws : b.weights with
    | some ws =>
      rw [hws, Option.getD_some] at hsize
      have hlength : b.relationships.toList.length = ws.toList.length := hsize.symm
      simp [stored, Builder.store, hws, List.zip_append hlength]
    | none =>
      rw [hws, Option.getD_none] at hsize
      simp [stored, Builder.store, hws, Array.eq_empty_of_size_eq_zero hsize.symm]

/-! Storing in one direction or both. -/

@[simp] theorem nodeCount_push (b : Builder W) (source target : NodeId) (weight : Option W) :
    (b.push source target weight).nodeCount = b.nodeCount := by
  unfold push
  split <;> rfl

@[simp] theorem undirected_push (b : Builder W) (source target : NodeId) (weight : Option W) :
    (b.push source target weight).undirected = b.undirected := by
  unfold push
  split <;> rfl

theorem Sound.agrees_store (h : b.Sound) (hagrees : b.Agrees weight) (source target : NodeId) :
    (b.store source target weight).Agrees weight :=
  .inr (h.weights_isSome_store hagrees source target)

theorem Sound.push (h : b.Sound) (hsource : source.val < b.nodeCount)
    (htarget : target.val < b.nodeCount) (hagrees : b.Agrees weight) :
    (b.push source target weight).Sound := by
  have hstore := h.store hsource htarget hagrees
  unfold Builder.push
  split
  · exact hstore.store htarget hsource (h.agrees_store hagrees source target)
  · exact hstore

theorem Sound.weights_isSome_push (h : b.Sound) (hagrees : b.Agrees weight)
    (source target : NodeId) (hsource : source.val < b.nodeCount)
    (htarget : target.val < b.nodeCount) :
    (b.push source target weight).weights.isSome = weight.isSome := by
  unfold Builder.push
  split
  · exact (h.store hsource htarget hagrees).weights_isSome_store
      (h.agrees_store hagrees source target) target source
  · exact h.weights_isSome_store hagrees source target

/-- A relationship in the directions in which the builder stores it. -/
def directions (b : Builder W) (source target : NodeId) (weight : W) :
    List (NodeId × NodeId × W) :=
  (source, target, weight) ::
    if b.undirected && source ≠ target then [(target, source, weight)] else []

theorem Sound.stored_push [Weight W] (h : b.Sound) (hsource : source.val < b.nodeCount)
    (htarget : target.val < b.nodeCount) (hagrees : b.Agrees weight) :
    (b.push source target weight).stored =
      b.stored ++ b.directions source target (weight.getD Weight.unit) := by
  unfold Builder.push directions
  split
  · rw [(h.store hsource htarget hagrees).stored_store (h.agrees_store hagrees source target),
      h.stored_store hagrees, List.append_assoc, List.singleton_append]
  · exact h.stored_store hagrees

end Storing

/-! ## Additions -/

section Additions

variable [Weight W] {b b' : Builder W} {source target : NodeId} {weight : Option W}

/-- What an addition is accepted for: its end points are nodes, its weight is finite, and it has a
    weight if what is stored has weights. -/
structure Accepts (b : Builder W) (source target : NodeId) (weight : Option W) : Prop where
  source : source.val < b.nodeCount
  target : target.val < b.nodeCount
  finite : ∀ w, weight = some w → Weight.isFinite w
  agrees : b.Agrees weight

omit [Weight W] in
theorem Sound.agrees_none_iff (h : b.Sound) : b.Agrees none ↔ ¬ b.weights.isSome := by
  unfold Agrees
  constructor
  · rintro (hempty | hsame)
    · simp [h.weights_of_empty hempty]
    · simp [hsame]
  · intro hnone
    exact .inr (by simpa using hnone)

omit [Weight W] in
theorem agrees_some_iff {w : W} :
    b.Agrees (some w) ↔ ¬ (b.weights.isNone && b.relationships.size != 0) := by
  unfold Agrees size
  cases b.weights <;> simp

/-- An addition succeeds exactly if it is accepted, and then stores the relationship. -/
theorem addEither_eq_ok_iff (h : b.Sound) :
    b.addEither source target weight = .ok b' ↔
      b.Accepts source target weight ∧ b' = b.push source target weight := by
  constructor
  · intro hadd
    cases weight with
    | none =>
      simp only [addEither, add, checkNode, bind, Except.bind, throw, throwThe,
        MonadExceptOf.throw, pure, Except.pure] at hadd
      split_ifs at hadd with hs ht hw
      exact ⟨⟨hs, ht, by simp, h.agrees_none_iff.2 hw⟩, (Except.ok.inj hadd).symm⟩
    | some w =>
      simp only [addEither, addWeighted, checkNode, bind, Except.bind, throw, throwThe,
        MonadExceptOf.throw, pure, Except.pure] at hadd
      split_ifs at hadd with hs ht hf hk
      exact ⟨⟨hs, ht, by simpa using hf, agrees_some_iff.2 hk⟩, (Except.ok.inj hadd).symm⟩
  · rintro ⟨⟨hs, ht, hf, hk⟩, rfl⟩
    cases weight with
    | none =>
      have hw := h.agrees_none_iff.1 hk
      simp [addEither, add, checkNode, hs, ht, hw, bind, Except.bind, pure, Except.pure]
    | some w =>
      have hw := agrees_some_iff.1 hk
      simp [addEither, addWeighted, checkNode, hs, ht, hf w rfl, hw, bind, Except.bind, pure,
        Except.pure]

theorem Accepts.sound_push (ha : b.Accepts source target weight) (h : b.Sound) :
    (b.push source target weight).Sound :=
  h.push ha.source ha.target ha.agrees

theorem addAll_cons_eq_ok_iff (h : b.Sound) {rest : List (NodeId × NodeId × Option W)} :
    b.addAll ((source, target, weight) :: rest) = .ok b' ↔
      b.Accepts source target weight ∧ (b.push source target weight).addAll rest = .ok b' := by
  rw [addAll]
  constructor
  · intro hall
    cases hadd : b.addEither source target weight with
    | error e => simp [hadd, bind, Except.bind] at hall
    | ok b₁ =>
      obtain ⟨ha, rfl⟩ := (addEither_eq_ok_iff h).1 hadd
      rw [hadd] at hall
      exact ⟨ha, hall⟩
  · rintro ⟨ha, hrest⟩
    rw [(addEither_eq_ok_iff h).2 ⟨ha, rfl⟩]
    exact hrest

/-- A sequence of additions succeeds exactly if all end points are nodes, all weights are finite,
    and either all or none have weights, as what is stored before has. -/
theorem addAll_isOk_iff (h : b.Sound) {rels : List (NodeId × NodeId × Option W)} :
    (∃ b', b.addAll rels = .ok b') ↔
      (∀ r ∈ rels, r.1.val < b.nodeCount ∧ r.2.1.val < b.nodeCount ∧
        ∀ w, r.2.2 = some w → Weight.isFinite w) ∧
      ∃ weighted, (b.size = 0 ∨ b.weights.isSome = weighted) ∧
        ∀ r ∈ rels, r.2.2.isSome = weighted := by
  induction rels generalizing b with
  | nil => exact ⟨fun _ => ⟨by simp, b.weights.isSome, .inr rfl, by simp⟩, fun _ => ⟨b, rfl⟩⟩
  | cons r rels ih =>
    obtain ⟨source, target, weight⟩ := r
    simp only [addAll_cons_eq_ok_iff h, exists_and_left, List.forall_mem_cons]
    constructor
    · rintro ⟨ha, hrest⟩
      obtain ⟨hall, weighted, hkind, hsame⟩ := (ih (ha.sound_push h)).1 hrest
      have hpos : (b.push source target weight).size ≠ 0 := by
        rw [size_push]
        split <;> omega
      have hw := h.weights_isSome_push ha.agrees source target ha.source ha.target
      obtain rfl : weight.isSome = weighted := by rw [← hw, hkind.resolve_left hpos]
      simp only [nodeCount_push] at hall
      exact ⟨⟨⟨ha.source, ha.target, ha.finite⟩, hall⟩, _, ha.agrees, rfl, hsame⟩
    · rintro ⟨⟨⟨hs, ht, hf⟩, hall⟩, weighted, hkind, rfl, hsame⟩
      have ha : b.Accepts source target weight := ⟨hs, ht, hf, hkind⟩
      refine ⟨ha, (ih (ha.sound_push h)).2 ⟨?_, weight.isSome, .inr ?_, hsame⟩⟩
      · simpa only [nodeCount_push] using hall
      · exact h.weights_isSome_push ha.agrees source target hs ht

/-- What `b'` holds after the relationships `rels` have been added to `b`. -/
structure Added (b : Builder W) (rels : List (NodeId × NodeId × Option W)) (b' : Builder W) :
    Prop where
  nodeCount : b'.nodeCount = b.nodeCount
  sound : b'.Sound
  stored : b'.stored =
    b.stored ++ rels.flatMap fun r => b.directions r.1 r.2.1 (r.2.2.getD Weight.unit)
  weights : b'.weights.isSome = (b.weights.isSome || rels.any fun r => r.2.2.isSome)

theorem added_of_addAll (h : b.Sound) {rels : List (NodeId × NodeId × Option W)}
    (hall : b.addAll rels = .ok b') : Added b rels b' := by
  induction rels generalizing b with
  | nil =>
    obtain rfl := Except.ok.inj hall
    exact ⟨rfl, h, by simp, by simp⟩
  | cons r rels ih =>
    obtain ⟨source, target, weight⟩ := r
    obtain ⟨ha, hrest⟩ := (addAll_cons_eq_ok_iff h).1 hall
    have hadded := ih (ha.sound_push h) hrest
    refine ⟨by rw [hadded.nodeCount, nodeCount_push], hadded.sound, ?_, ?_⟩
    · rw [hadded.stored, h.stored_push ha.source ha.target ha.agrees, List.append_assoc,
        List.flatMap_cons]
      simp only [directions, undirected_push]
    · rw [hadded.weights, h.weights_isSome_push ha.agrees source target ha.source ha.target,
        List.any_cons, ← Bool.or_assoc]
      congr 1
      rcases ha.agrees with hempty | hsame
      · simp [h.weights_of_empty hempty]
      · simp [hsame]

end Additions

end Builder

end Superstep
