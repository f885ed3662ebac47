import Superstep.Proofs.Graph.Finite
import Superstep.Proofs.Graph.FreezingWords

/-!
# The shape of random graphs

In a random graph every node has the same number of relationships, and none with itself. The target
of a relationship is drawn from one candidate less than there are nodes and is moved past the
source: for a fixed source this matches the candidates with the other nodes one to one
(`bijOn_skipSource`).

`randomGraph?` generates a graph in two nested loops, source by source, and stops where a machine
would not go on as usual. A fault is an operation on words that overflows, a draw from no
candidates, or a relationship that no room has been reserved for. The weights are not reserved:
their list grows while it is filled, and where it does not find the memory for that the process is
aborted. Which sizes it grows to and what it finds is left open: `grows k` says whether a list with
`k` entries takes one more. `Draws.drawn` is the builder after any number of draws; both loops and
the loop of `randomGraph` lead through these builders.

Result: `randomGraph_shape`. There are no faults. The process is aborted exactly if the
relationships have been reserved and the list of their weights fails to grow (`Starved`), as in
`weights_not_reserved`. Otherwise a graph is generated exactly if the number of its relationships is
a word and its arrays can be reserved, and then it has the shape above.
-/

namespace Superstep

namespace Random

variable {S W : Type}

/-! ## Skipping the source -/

/-- The node that a draw stands for, if it is a word. -/
def skipSource? (source drawn : UInt64) : Option UInt64 :=
  if drawn ≥ source then Word.add? drawn 1 else some drawn

section Skipping

variable {n drawn : UInt64}

theorem toNat_pred (hn : 2 ≤ n) : (n - 1).toNat = n.toNat - 1 :=
  UInt64.toNat_sub_of_le _ _ (UInt64.le_trans (by decide) hn)

theorem toNat_add_one_lt (hn : 2 ≤ n) (hdrawn : drawn < n - 1) :
    drawn.toNat + (1 : UInt64).toNat < n.toNat := by
  rw [UInt64.lt_iff_toNat_lt, toNat_pred hn] at hdrawn
  rw [UInt64.toNat_one]
  omega

theorem toNat_skipSource (source : UInt64) (hn : 2 ≤ n) (hdrawn : drawn < n - 1) :
    (skipSource source drawn).toNat =
      if source.toNat ≤ drawn.toNat then drawn.toNat + 1 else drawn.toNat := by
  simp only [skipSource, ge_iff_le, UInt64.le_iff_toNat_le]
  split
  · exact Word.toNat_add_of_lt
      (Nat.lt_trans (toNat_add_one_lt hn hdrawn) (toNat_lt_wordLimit n))
  · rfl

theorem skipSource?_eq (source : UInt64) (hn : 2 ≤ n) (hdrawn : drawn < n - 1) :
    skipSource? source drawn = some (skipSource source drawn) := by
  rw [skipSource?, skipSource, Word.add?_of_lt
    (Nat.lt_trans (toNat_add_one_lt hn hdrawn) (toNat_lt_wordLimit n))]
  split <;> rfl

theorem skipSource_ne (source : UInt64) (hn : 2 ≤ n) (hdrawn : drawn < n - 1) :
    skipSource source drawn ≠ source := by
  intro heq
  have hnat := toNat_skipSource source hn hdrawn
  rw [heq] at hnat
  split at hnat <;> omega

/-- For a fixed source the candidates stand for the other nodes, one for each. -/
theorem bijOn_skipSource {source : UInt64} (hn : 2 ≤ n) (hsource : source < n) :
    Set.BijOn (skipSource source) {drawn | drawn < n - 1}
      {target | target < n ∧ target ≠ source} := by
  refine ⟨fun drawn hdrawn => ⟨skipSource_lt hn hdrawn, skipSource_ne source hn hdrawn⟩, ?_, ?_⟩
  · intro drawn hdrawn drawn' hdrawn' heq
    have hnat := congrArg UInt64.toNat heq
    rw [toNat_skipSource source hn hdrawn, toNat_skipSource source hn hdrawn'] at hnat
    refine UInt64.toNat_inj.1 ?_
    split at hnat <;> split at hnat <;> omega
  · rintro target ⟨htarget, hne⟩
    have hne : target.toNat ≠ source.toNat := fun h => hne (UInt64.toNat_inj.1 h)
    rw [UInt64.lt_iff_toNat_lt] at htarget hsource
    have hmem : ∀ drawn : UInt64, drawn.toNat < n.toNat - 1 → drawn < n - 1 := fun drawn h => by
      rwa [UInt64.lt_iff_toNat_lt, toNat_pred hn]
    rcases Nat.lt_or_gt_of_ne hne with hlt | hgt
    · have hdrawn := hmem target (by omega)
      refine ⟨target, hdrawn, UInt64.toNat_inj.1 ?_⟩
      rw [toNat_skipSource source hn hdrawn, if_neg (by omega)]
    · have hpred : (target - 1).toNat = target.toNat - 1 :=
        UInt64.toNat_sub_of_le _ _ (UInt64.le_iff_toNat_le.2 (by rw [UInt64.toNat_one]; omega))
      have hdrawn := hmem (target - 1) (by omega)
      refine ⟨target - 1, hdrawn, UInt64.toNat_inj.1 ?_⟩
      rw [toNat_skipSource source hn hdrawn, hpred, if_pos (by omega)]
      omega

end Skipping

/-! ## Generation, step by step -/

/-- What stops a generation. -/
inductive Stop where
  /-- An operation on words overflows, there is nothing to draw from, or there is no room. -/
  | fault
  /-- A list that has not been reserved does not find the memory to grow, which ends the process. -/
  | abort
deriving DecidableEq

/-- A step that has to have a result. -/
def certain {α : Type} : Option α → Except Stop α
  | some x => .ok x
  | none => .error .fault

section Steps

variable (d : Draws S W) (grows : Nat → Bool) (n : UInt64)

/-- Draws one relationship that leaves `source`, where `room` relationships have been reserved. -/
def drawRelationship? (weighted : Bool) (room : Nat) (source : NodeId) (b : Builder W) (s : S) :
    Except Stop (Builder W × S) := do
  let candidates ← certain (Word.sub? n 1)
  if candidates = 0 then
    throw .fault
  let (drawn, s) := d.below candidates s
  let target ← certain (skipSource? source.val drawn)
  if room ≤ b.size then
    throw .fault
  if weighted then
    let (w, s) := d.weight s
    if !grows (b.weights.getD #[]).size then
      throw .abort
    return (b.push source ⟨target⟩ (some w), s)
  else return (b.push source ⟨target⟩ none, s)

/-- Draws `degree` relationships for each of the first `sources` nodes. -/
def drawAll? (degree : Nat) (weighted : Bool) (room sources : Nat) (s : S) :
    Except Stop (Builder W × S) :=
  (List.range sources).foldlM (fun x i =>
    (List.range degree).foldlM (fun x _ =>
      drawRelationship? d grows n weighted room (.ofIndex i) x.1 x.2) x) (Builder.new n, s)

/-- A random graph, unless the generation is stopped. -/
def randomGraph? [Memory.Allocator] [Weight W] (degree : UInt64) (weighted : Bool) (s : S) :
    Except Stop (Except GraphError (OffsetTable W)) :=
  if n < 2 then certain (Builder.new n).build?
  else
    match Word.mul? n degree with
    | none => .ok (.error (.resourceExhausted "relationships" (wordLimit - 1)))
    | some total =>
      match (Builder.new n : Builder W).reserve total.toNat with
      | .error e => .ok (.error e)
      | .ok () => do
        let (b, _) ← drawAll? d grows n degree.toNat weighted total.toNat n.toNat s
        certain b.build?

end Steps

/-! ## What is drawn -/

theorem position_div {i j degree : Nat} (h : j < degree) : (i * degree + j) / degree = i := by
  rw [Nat.add_comm, Nat.add_mul_div_right _ _ (by omega), Nat.div_eq_of_lt h, Nat.zero_add]

/-- The positions of one row among the rows of equal length. -/
theorem filter_range_div {sources degree i : Nat} (h : i < sources) :
    (List.range (sources * degree)).filter (fun k => k / degree = i) =
      (List.range degree).map (i * degree + ·) := by
  obtain ⟨rest, rfl⟩ := Nat.exists_eq_add_of_lt h
  have hsplit : (i + rest + 1) * degree = i * degree + (degree + rest * degree) := by ring
  have hbefore : (List.range (i * degree)).filter (fun k => k / degree = i) = [] := by
    refine List.filter_eq_nil_iff.2 fun k hk => ?_
    have hlt := Nat.div_lt_of_lt_mul (Nat.mul_comm i degree ▸ List.mem_range.1 hk)
    simpa using hlt.ne
  have hrow : (List.range degree).filter (fun k => (i * degree + k) / degree = i) =
      List.range degree := by
    refine List.filter_eq_self.2 fun k hk => ?_
    rw [position_div (List.mem_range.1 hk)]
    exact decide_eq_true rfl
  have hafter : (List.range (rest * degree)).filter
      (fun k => (i * degree + (degree + k)) / degree = i) = [] := by
    refine List.filter_eq_nil_iff.2 fun k hk => ?_
    have hpos : 0 < degree := Nat.pos_of_ne_zero fun hzero => by simp [hzero] at hk
    have hdiv : (i * degree + (degree + k)) / degree = i + 1 + k / degree := by
      rw [show i * degree + (degree + k) = k + (i + 1) * degree by ring,
        Nat.add_mul_div_right _ _ hpos, Nat.add_comm]
    simp only [hdiv, decide_eq_true_eq]
    generalize k / degree = q
    omega
  rw [hsplit, List.range_add, List.range_add, List.map_append, List.filter_append,
    List.filter_append, List.map_map, List.filter_map, List.filter_map, hbefore]
  simp only [Function.comp_def, hrow, hafter, List.map_nil, List.append_nil, List.nil_append]

/-- Whether a list of weights, if there is to be one, takes `k` entries one after the other. -/
def Takes (grows : Nat → Bool) (weighted : Bool) (k : Nat) : Prop :=
  weighted → ∀ j < k, grows j

instance {grows : Nat → Bool} {weighted : Bool} {k : Nat} : Decidable (Takes grows weighted k) :=
  inferInstanceAs (Decidable (weighted = true → ∀ j < k, grows j = true))

namespace Draws

section Drawn

variable (d : Draws S W) (n : UInt64) (degree : Nat) (weighted : Bool) (s : S)

/-- The state of the source of draws after one more relationship. -/
def next (s : S) : S :=
  let s := (d.below (n - 1) s).2
  if weighted then (d.weight s).2 else s

/-- The state of the source of draws after `k` relationships. -/
def stateAt (k : Nat) : S := (d.next n weighted)^[k] s

/-- The relationship that is drawn after `k` others. -/
def arcAt (k : Nat) : NodeId × NodeId × Option W :=
  let source := NodeId.ofIndex (k / degree)
  let (drawn, s) := d.below (n - 1) (d.stateAt n weighted s k)
  (source, ⟨skipSource source.val drawn⟩, if weighted then some (d.weight s).1 else none)

/-- The relationships that are drawn for the node at a position. -/
def rowAt [Weight W] (i : Nat) : List (NodeId × W) :=
  (List.range degree).map fun j =>
    (Builder.weighed (d.arcAt n degree weighted s (i * degree + j))).2

/-- The builder after `k` relationships have been drawn. -/
def drawn (k : Nat) : Builder W :=
  ((List.range k).map (d.arcAt n degree weighted s)).foldl (fun b r => b.push r.1 r.2.1 r.2.2)
    (Builder.new n)

/-- What has been drawn after `k` relationships, with the state of the source of draws, unless the
    list of weights has failed to grow. -/
def reached (grows : Nat → Bool) (k : Nat) : Except Stop (Builder W × S) :=
  if Takes grows weighted k then
    .ok (d.drawn n degree weighted s k, d.stateAt n weighted s k)
  else .error .abort

end Drawn

variable {d : Draws S W} {n : UInt64} {degree : Nat} (weighted : Bool) (s : S)

theorem drawRelationship_drawn (k : Nat) :
    drawRelationship d n weighted (.ofIndex (k / degree)) (d.drawn n degree weighted s k)
        (d.stateAt n weighted s k) =
      (d.drawn n degree weighted s (k + 1), d.stateAt n weighted s (k + 1)) := by
  have hdrawn : d.drawn n degree weighted s (k + 1) =
      (d.drawn n degree weighted s k).push (d.arcAt n degree weighted s k).1
        (d.arcAt n degree weighted s k).2.1 (d.arcAt n degree weighted s k).2.2 := by
    rw [drawn, List.range_succ, List.map_append, List.foldl_append]
    rfl
  rw [hdrawn, stateAt, stateAt, Function.iterate_succ_apply']
  cases weighted <;> rfl

theorem fold_drawRelationship (k : Nat) :
    Nat.fold k (fun i _ x => drawRelationship d n weighted (.ofIndex (i / degree)) x.1 x.2)
        (Builder.new n, s) =
      (d.drawn n degree weighted s k, d.stateAt n weighted s k) := by
  induction k with
  | zero => rfl
  | succ k ih => rw [Nat.fold_succ, ih, drawRelationship_drawn]

/-! The builder that is filled. -/

section Filled

variable (hd : d.Bounded) (hn : 2 ≤ n)
include hd hn

theorem below_lt : (d.below (n - 1) s).1 < n - 1 := by
  refine hd (n - 1) s (UInt64.lt_iff_toNat_lt.2 ?_)
  have := UInt64.le_iff_toNat_le.1 hn
  rw [toNat_pred hn]
  exact Nat.sub_pos_of_lt this

/-- A relationship that is drawn joins a node with another node, and has a weight exactly if the
    graph is to be weighted. -/
theorem arcAt_spec {k : Nat} (hk : k / degree < n.toNat) :
    let arc := d.arcAt n degree weighted s k
    arc.1.val < n ∧ arc.2.1.val < n ∧ arc.2.1 ≠ arc.1 ∧ arc.2.2.isSome = weighted ∧
      ∀ w ∈ arc.2.2, d.Gives w := by
  have hdrawn := below_lt (d.stateAt n weighted s k) hd hn
  refine ⟨ofIndex_val_lt hk, skipSource_lt hn hdrawn,
    fun heq => skipSource_ne _ hn hdrawn (congrArg NodeId.val heq), ?_⟩
  cases weighted with
  | true => exact ⟨rfl, by rintro _ ⟨⟩; exact ⟨_, rfl⟩⟩
  | false => exact ⟨rfl, fun _ hw => nomatch hw⟩

variable [Weight W]

theorem drawn_spec {k : Nat} (hk : k ≤ n.toNat * degree) :
    (d.drawn n degree weighted s k).Filling n weighted d.Gives ∧
      (d.drawn n degree weighted s k).stored =
        ((List.range k).map (d.arcAt n degree weighted s)).map Builder.weighed := by
  refine (Builder.Filling.new n weighted).pushAll rfl _ fun r hr => ?_
  obtain ⟨j, hj, rfl⟩ := List.mem_map.1 hr
  have hj := List.mem_range.1 hj
  have hsource : j / degree < n.toNat := by
    rw [Nat.mul_comm] at hk
    exact Nat.div_lt_of_lt_mul (by omega)
  obtain ⟨h₁, h₂, -, h₃⟩ := arcAt_spec weighted s hd hn hsource
  exact ⟨h₁, h₂, h₃⟩

theorem size_drawn {k : Nat} (hk : k ≤ n.toNat * degree) :
    (d.drawn n degree weighted s k).size = k := by
  obtain ⟨hfilling, hstored⟩ := drawn_spec weighted s hd hn hk
  rw [← hfilling.sound.length_stored, hstored, List.length_map, List.length_map, List.length_range]

theorem isSome_weights_drawn {k : Nat} (hk : k ≤ n.toNat * degree) :
    (d.drawn n degree weighted s k).weights.isSome ↔ weighted ∧ 0 < k := by
  obtain ⟨hfilling, -⟩ := drawn_spec weighted s hd hn hk
  have hsize := size_drawn weighted s hd hn hk
  rcases Nat.eq_zero_or_pos k with rfl | hpos
  · simp [hfilling.sound.weights_of_empty hsize]
  · rw [hfilling.kind.resolve_left (by omega)]
    simp [hpos]

end Filled

/-! Step by step. -/

section Checked

variable [Weight W] (grows : Nat → Bool) (hd : d.Bounded) (hn : 2 ≤ n) {room : Nat}
include hd hn

/-- A weighted builder has a weight for everything that has been drawn. -/
theorem size_weights_drawn {k : Nat} (hk : k ≤ n.toNat * degree) (hweighted : weighted) :
    ((d.drawn n degree weighted s k).weights.getD #[]).size = k := by
  have hsize := size_drawn weighted s hd hn hk
  have hsome := isSome_weights_drawn weighted s hd hn hk
  cases hws : (d.drawn n degree weighted s k).weights with
  | none =>
    rw [hws] at hsome
    have hpos : ¬ 0 < k := fun hpos => Bool.false_ne_true (hsome.2 ⟨hweighted, hpos⟩)
    exact (Nat.eq_zero_of_not_pos hpos).symm
  | some ws => exact ((drawn_spec weighted s hd hn hk).1.sound.weights ws hws).1.trans hsize

/-- As long as there is room, one relationship is drawn, if the list of weights takes one more. -/
theorem drawRelationship?_drawn {k : Nat} (hk : k < room) (hroom : room ≤ n.toNat * degree) :
    drawRelationship? d grows n weighted room (.ofIndex (k / degree))
        (d.drawn n degree weighted s k) (d.stateAt n weighted s k) =
      if weighted → grows k then
        .ok (d.drawn n degree weighted s (k + 1), d.stateAt n weighted s (k + 1))
      else .error .abort := by
  have hle : k ≤ n.toNat * degree := hk.le.trans hroom
  have hsize := size_drawn weighted s hd hn hle
  have hweights := size_weights_drawn weighted s hd hn hle
  have hcandidates : Word.sub? n 1 = some (n - 1) :=
    Word.sub?_of_le (UInt64.le_trans (by decide) hn)
  have hdrawn := below_lt (d.stateAt n weighted s k) hd hn
  have hne : n - 1 ≠ 0 := fun h => UInt64.not_lt_zero (h ▸ hdrawn)
  have hskip := skipSource?_eq (NodeId.ofIndex (k / degree)).val hn hdrawn
  rw [← drawRelationship_drawn, drawRelationship?, drawRelationship, hcandidates]
  dsimp only [certain, bind, Except.bind]
  rw [if_neg hne]
  dsimp only [pure, Except.pure]
  rw [hskip, hsize]
  dsimp only [certain]
  rw [if_neg (Nat.not_le.2 hk)]
  cases weighted with
  | false => rfl
  | true =>
    rw [hweights rfl]
    cases grows k <;> rfl

/-- The next relationship is drawn, unless the generation has been stopped. -/
theorem reached_bind {k : Nat} (hk : k < room) (hroom : room ≤ n.toNat * degree) :
    (d.reached n degree weighted s grows k >>= fun x =>
        drawRelationship? d grows n weighted room (.ofIndex (k / degree)) x.1 x.2) =
      d.reached n degree weighted s grows (k + 1) := by
  have hsucc : Takes grows weighted (k + 1) ↔ Takes grows weighted k ∧ (weighted → grows k) := by
    simp only [Takes, Nat.forall_lt_succ_right, imp_and]
  unfold reached
  by_cases htakes : Takes grows weighted k
  · rw [if_pos htakes]
    refine (drawRelationship?_drawn weighted s grows hd hn hk hroom).trans ?_
    simp only [hsucc, htakes, true_and]
  · rw [if_neg htakes, if_neg fun h => htakes (hsucc.1 h).1]
    rfl

/-- The loop over the relationships of one source. -/
theorem reached_bind_foldlM {source : Nat} (hsource : source < n.toNat)
    (hroom : room = n.toNat * degree) {k : Nat} (hk : k ≤ degree) :
    (d.reached n degree weighted s grows (source * degree) >>= fun x =>
        (List.range k).foldlM (fun x _ =>
          drawRelationship? d grows n weighted room (.ofIndex source) x.1 x.2) x) =
      d.reached n degree weighted s grows (source * degree + k) := by
  induction k with
  | zero => exact bind_pure _
  | succ k ih =>
    have hdiv : (source * degree + k) / degree = source := position_div hk
    have hlt : source * degree + k < room := by
      have := Nat.mul_le_mul_right degree hsource
      rw [Nat.succ_mul] at this
      omega
    have hstep := reached_bind weighted s grows hd hn hlt hroom.le
    rw [hdiv, ← ih (by omega), bind_assoc] at hstep
    rw [← Nat.add_assoc, ← hstep]
    simp only [List.range_succ, List.foldlM_append, List.foldlM_cons, List.foldlM_nil, bind_pure]

theorem drawAll?_eq (hroom : room = n.toNat * degree) {sources : Nat}
    (hsources : sources ≤ n.toNat) :
    drawAll? d grows n degree weighted room sources s =
      d.reached n degree weighted s grows (sources * degree) := by
  induction sources with
  | zero =>
    have htakes : Takes grows weighted 0 := fun _ j hj => absurd hj (Nat.not_lt_zero j)
    rw [Nat.zero_mul, reached, if_pos htakes]
    rfl
  | succ source ih =>
    rw [Nat.succ_mul, ← reached_bind_foldlM weighted s grows hd hn (by omega) hroom le_rfl,
      ← ih (by omega), drawAll?, drawAll?, List.range_succ, List.foldlM_append]
    simp only [List.foldlM_cons, List.foldlM_nil, bind_pure]

end Checked

end Draws

/-! ## What can be afforded -/

/-- The arrays of a random graph, each with the number and the size of its elements: relationships,
    offsets, cursors, targets and weights. -/
def arraysOf (n degree : UInt64) (weighted : Bool) : List (Nat × Nat) :=
  let total := if n < 2 then 0 else n.toNat * degree.toNat
  [(total, Memory.pairBytes), (n.toNat + 1, Memory.wordBytes), (n.toNat + 1, Memory.wordBytes),
    (total, Memory.wordBytes)] ++ if weighted then [(total, Memory.wordBytes)] else []

/-- The product of the node count and the degree is a word, and the arrays can be reserved. -/
def Affordable [Memory.Allocator] (n degree : UInt64) (weighted : Bool) : Prop :=
  n.toNat * degree.toNat < wordLimit ∧ ∀ a ∈ arraysOf n degree weighted, Memory.fits a.1 a.2

section Affording

variable [Memory.Allocator] {n degree : UInt64} {weighted : Bool}

theorem forall_fits_iff {total : Nat} (h : (if n < 2 then 0 else n.toNat * degree.toNat) = total) :
    (∀ a ∈ arraysOf n degree weighted, Memory.fits a.1 a.2) ↔
      Memory.fits total Memory.pairBytes ∧ Builder.Allocatable n.toNat total := by
  rw [arraysOf, h, Builder.Allocatable]
  cases weighted <;> simp

theorem affordable_iff (hn : 2 ≤ n) :
    Affordable n degree weighted ↔
      n.toNat * degree.toNat < wordLimit ∧
        Memory.fits (n.toNat * degree.toNat) Memory.pairBytes ∧
        Builder.Allocatable n.toNat (n.toNat * degree.toNat) :=
  and_congr_right fun _ => forall_fits_iff (if_neg (UInt64.not_lt.2 hn))

/-- Without relationships, the offsets are all there is to reserve. -/
theorem affordable_iff_of_lt (hn : n < 2) :
    Affordable n degree weighted ↔ Builder.Allocatable n.toNat 0 := by
  have hle : n.toNat * degree.toNat ≤ 1 * degree.toNat :=
    Nat.mul_le_mul_right _ (Nat.le_of_lt_succ (UInt64.lt_iff_toNat_lt.1 hn))
  rw [Nat.one_mul] at hle
  have htotal := Nat.lt_of_le_of_lt hle (toNat_lt_wordLimit degree)
  rw [Affordable, forall_fits_iff (if_pos hn)]
  simp [htotal]

/-- The relationships have been reserved, but the list of their weights fails to grow. -/
def Starved (grows : Nat → Bool) (n degree : UInt64) (weighted : Bool) : Prop :=
  2 ≤ n ∧ n.toNat * degree.toNat < wordLimit ∧
    Memory.fits (n.toNat * degree.toNat) Memory.pairBytes ∧
    ¬ Takes grows weighted (n.toNat * degree.toNat)

instance {grows : Nat → Bool} : Decidable (Starved grows n degree weighted) :=
  inferInstanceAs (Decidable (_ ∧ _))

end Affording

/-! ## Random graphs -/

section Generation

variable [Memory.Allocator] [Weight W] {d : Draws S W} {n degree : UInt64} {weighted : Bool} {s : S}

theorem randomGraph_of_lt (hn : n < 2) :
    randomGraph d n degree.toNat weighted s = (Builder.new n : Builder W).build := by
  unfold randomGraph
  rw [if_pos hn]

omit [Weight W] in
theorem reserve_new {total : Nat} (htotal : total < wordLimit) :
    (Builder.new n : Builder W).reserve total =
      if Memory.fits total Memory.pairBytes then .ok ()
      else .error (.resourceExhausted "relationships" total) := by
  simp [Builder.reserve, Builder.new, htotal]

/-- The number of relationships is tested, they are reserved, and what has been drawn is frozen. -/
theorem randomGraph_of_le (hn : 2 ≤ n) :
    randomGraph d n degree.toNat weighted s =
      if n.toNat * degree.toNat < wordLimit then
        if Memory.fits (n.toNat * degree.toNat) Memory.pairBytes then
          (d.drawn n degree.toNat weighted s (n.toNat * degree.toNat)).build
        else .error (.resourceExhausted "relationships" (n.toNat * degree.toNat))
      else .error (.resourceExhausted "relationships" (wordLimit - 1)) := by
  simp only [randomGraph, Draws.fold_drawRelationship]
  rw [if_neg (UInt64.not_lt.2 hn), relationshipTotal]
  split
  · next htotal =>
    change ((Builder.new n : Builder W).reserve (n.toNat * degree.toNat) >>= fun _ => _) = _
    rw [reserve_new htotal]
    split <;> rfl
  · rfl

/-- The generation is stopped only if the list of weights fails to grow. -/
theorem randomGraph?_eq (grows : Nat → Bool) (hd : d.Bounded) :
    randomGraph? d grows n degree weighted s =
      if Starved grows n degree weighted then .error .abort
      else .ok (randomGraph d n degree.toNat weighted s) := by
  rw [randomGraph?]
  split
  · next hn =>
    rw [(Builder.Sound.new n).build?_eq, randomGraph_of_lt hn,
      if_neg fun h => UInt64.not_lt.2 h.1 hn]
    rfl
  · next hn =>
    have hn := UInt64.not_lt.1 hn
    rw [randomGraph_of_le hn]
    by_cases htotal : n.toNat * degree.toNat < wordLimit
    · rw [Word.mul?_of_lt htotal, if_pos htotal]
      dsimp only
      rw [Word.toNat_mul_of_lt htotal, reserve_new htotal]
      by_cases hfits : Memory.fits (n.toNat * degree.toNat) Memory.pairBytes
      · have hsound := (Draws.drawn_spec weighted s hd hn
          (Nat.le_refl (n.toNat * degree.toNat))).1.sound
        have hstarved : Starved grows n degree weighted ↔
            ¬ Takes grows weighted (n.toNat * degree.toNat) := by
          simp only [Starved, hn, htotal, hfits, true_and]
        rw [if_pos hfits, if_pos hfits]
        dsimp only
        rw [Draws.drawAll?_eq weighted s grows hd hn rfl (Nat.le_refl _), Draws.reached]
        by_cases htakes : Takes grows weighted (n.toNat * degree.toNat)
        · rw [if_pos htakes, if_neg fun h => hstarved.1 h htakes]
          exact congrArg certain hsound.build?_eq
        · rw [if_neg htakes, if_pos (hstarved.2 htakes)]
          rfl
      · rw [if_neg hfits, if_neg hfits, if_neg fun h => hfits h.2.2.1]
    · rw [Word.mul?_eq_none (Nat.not_lt.1 htotal), if_neg htotal, if_neg fun h => htotal h.2.1]

/-- A graph that cannot be afforded is refused for want of memory. -/
theorem randomGraph_of_not_affordable (hd : d.Bounded) (h : ¬ Affordable n degree weighted) :
    ∃ what requested,
      randomGraph d n degree.toNat weighted s = .error (.resourceExhausted what requested) := by
  have hrefused {b : Builder W} (hb : ¬ Builder.Allocatable b.nodeCount.toNat b.size) :
      ∃ what requested, b.build = .error (.resourceExhausted what requested) := by
    cases hbuild : b.build with
    | error e =>
      obtain ⟨what, requested, rfl⟩ := Builder.resourceExhausted_of_build hbuild
      exact ⟨what, requested, rfl⟩
    | ok t => exact absurd (Builder.allocatable_of_build hbuild) hb
  by_cases hn : n < 2
  · rw [randomGraph_of_lt hn]
    exact hrefused fun hb => h ((affordable_iff_of_lt hn).2 hb)
  · have hn := UInt64.not_lt.1 hn
    rw [randomGraph_of_le hn]
    split_ifs with htotal hfits
    · refine hrefused fun hb => h ((affordable_iff hn).2 ⟨htotal, hfits, ?_⟩)
      have hle := Nat.le_refl (n.toNat * degree.toNat)
      rwa [(Draws.drawn_spec weighted s hd hn hle).1.nodeCount,
        Draws.size_drawn weighted s hd hn hle] at hb
    · exact ⟨_, _, rfl⟩
    · exact ⟨_, _, rfl⟩

/-! The table. -/

omit [Memory.Allocator] in
/-- The rows of the table are what is drawn for each node. -/
theorem rowsOf_drawn (hd : d.Bounded) (hn : 2 ≤ n) :
    Builder.rowsOf n.toNat
        (d.drawn n degree.toNat weighted s (n.toNat * degree.toNat)).stored =
      (List.range n.toNat).map (d.rowAt n degree.toNat weighted s) := by
  rw [(Draws.drawn_spec weighted s hd hn (Nat.le_refl _)).2, List.map_map]
  refine List.map_congr_left fun i hi => ?_
  have hi := List.mem_range.1 hi
  have hindex : ∀ k ∈ List.range (n.toNat * degree.toNat),
      (NodeId.ofIndex (k / degree.toNat)).index = k / degree.toNat := fun k hk =>
    NodeId.index_ofIndex (Nat.lt_trans (Nat.div_lt_of_lt_mul
      (Nat.mul_comm n.toNat _ ▸ List.mem_range.1 hk)) (toNat_lt_wordLimit n))
  have hfilter : (List.range (n.toNat * degree.toNat)).filter
      ((fun e : NodeId × NodeId × W => decide (e.1.index = i)) ∘
        Builder.weighed ∘ d.arcAt n degree.toNat weighted s) =
      (List.range (n.toNat * degree.toNat)).filter fun k => k / degree.toNat = i :=
    List.filter_congr fun k hk => congrArg (fun j => decide (j = i)) (hindex k hk)
  rw [List.filter_map, hfilter, filter_range_div hi, List.map_map, List.map_map]
  rfl

/-- A graph that can be afforded is generated: what is drawn for each node, with weights if it is
    to be weighted and something has been drawn. -/
theorem randomGraph_of_affordable (hd : d.Bounded) (hn : 2 ≤ n) (h : Affordable n degree weighted) :
    randomGraph d n degree.toNat weighted s = .ok
      (.ofRows (weighted && decide (0 < n.toNat * degree.toNat))
        ((List.range n.toNat).map (d.rowAt n degree.toNat weighted s))) := by
  obtain ⟨htotal, hfits, hallocatable⟩ := (affordable_iff hn).1 h
  obtain ⟨hfilling, -⟩ := Draws.drawn_spec weighted s hd hn
    (Nat.le_refl (n.toNat * degree.toNat))
  have hsize := Draws.size_drawn weighted s hd hn
    (Nat.le_refl (n.toNat * degree.toNat))
  have hweights := Draws.isSome_weights_drawn weighted s hd hn
    (Nat.le_refl (n.toNat * degree.toNat))
  have hkind : (d.drawn n degree.toNat weighted s (n.toNat * degree.toNat)).weights.isSome =
      (weighted && decide (0 < n.toNat * degree.toNat)) := by
    rw [Bool.eq_iff_iff, hweights, Bool.and_eq_true, decide_eq_true_eq]
  rw [randomGraph_of_le hn, if_pos htotal, if_pos hfits, Builder.build_eq hfilling.sound, hkind,
    hfilling.nodeCount, rowsOf_drawn hd hn]
  rwa [hfilling.nodeCount, ← Builder.size, hsize]

end Generation

/-! ## The shape -/

/-- What a random graph looks like. A graph with fewer than two nodes has no relationships; in a
    larger graph every node has `degree` relationships with other nodes, those that have been drawn
    for it. -/
structure Shape [Weight W] (d : Draws S W) (n degree : UInt64) (weighted : Bool) (s : S)
    (t : OffsetTable W) : Prop where
  nodeCount : t.nodeCount = n.toNat
  small : n < 2 → t.targets = #[] ∧ t.weights = none ∧ ∀ node, t.relationships node = []
  offsets : 2 ≤ n → ∀ i ≤ n.toNat, t.offsets[i]? = some (i * degree.toNat)
  regular : 2 ≤ n → ∀ node : NodeId, node.val < n →
    t.degree node = degree.toNat ∧ (t.relationships node).length = degree.toNat
  targets : 2 ≤ n → ∀ node : NodeId, node.val < n → ∀ r ∈ t.relationships node,
    r.1.val < n ∧ r.1 ≠ node
  drawn : 2 ≤ n → ∀ node : NodeId, node.val < n →
    t.relationships node = d.rowAt n degree.toNat weighted s node.index
  weights : 2 ≤ n → (t.weights.isSome ↔ weighted ∧ 0 < degree)

section Shaping

variable [Weight W] {d : Draws S W} {n degree : UInt64} {weighted : Bool} {s : S}

omit [Weight W] in
theorem rowStart_of_length {rows : List (List (NodeId × W))} {length i : Nat}
    (h : ∀ row ∈ rows, row.length = length) (hi : i ≤ rows.length) :
    OffsetTable.rowStart rows i = i * length := by
  induction i with
  | zero => simp [OffsetTable.rowStart]
  | succ i ih =>
    rw [OffsetTable.rowStart_succ hi, ih (by omega), h _ (List.getElem_mem _), Nat.succ_mul]

theorem mem_rowAt (hd : d.Bounded) (hn : 2 ≤ n) {i : Nat} (hi : i < n.toNat) {r : NodeId × W}
    (hr : r ∈ d.rowAt n degree.toNat weighted s i) : r.1.val < n ∧ r.1 ≠ NodeId.ofIndex i := by
  obtain ⟨j, hj, rfl⟩ := List.mem_map.1 hr
  have hj := List.mem_range.1 hj
  have hdiv : (i * degree.toNat + j) / degree.toNat = i := position_div hj
  have hlt : (i * degree.toNat + j) / degree.toNat < n.toNat := by rwa [hdiv]
  obtain ⟨-, htarget, hne, -⟩ := Draws.arcAt_spec weighted s hd hn hlt
  refine ⟨htarget, fun heq => hne (heq.trans ?_)⟩
  rw [Draws.arcAt, hdiv]

theorem unit_of_mem_rowAt {i : Nat} {r : NodeId × W}
    (hr : r ∈ d.rowAt n degree.toNat false s i) : r.2 = Weight.unit := by
  obtain ⟨j, -, rfl⟩ := List.mem_map.1 hr
  rfl

/-- A graph with fewer than two nodes has no relationships. -/
theorem shape_of_lt [Memory.Allocator] (hn : n < 2) (h : Builder.Allocatable n.toNat 0) :
    ∃ t, randomGraph d n degree.toNat weighted s = .ok t ∧ Shape d n degree weighted s t := by
  have hsound := Builder.Sound.new (W := W) n
  have hbuild := Builder.build_eq hsound h
  have hlists := OffsetTable.lists_of_build hsound hbuild
  have hstored := hsound.stored_of_empty rfl
  refine ⟨_, (randomGraph_of_lt hn).trans hbuild, ?_⟩
  have hlarge : ¬ 2 ≤ n := UInt64.not_le.2 hn
  exact
    { nodeCount := hlists.nodeCount_eq
      small := fun _ => ⟨by simp [OffsetTable.ofRows, hstored, Builder.rowsOf], rfl,
        fun node => by rw [hlists.relationships_eq_filter, hstored]; rfl⟩
      offsets := fun h => absurd h hlarge
      regular := fun h => absurd h hlarge
      targets := fun h => absurd h hlarge
      drawn := fun h => absurd h hlarge
      weights := fun h => absurd h hlarge }

/-- A larger graph has what has been drawn. -/
theorem shape_of_le (hd : d.Bounded) (hn : 2 ≤ n) :
    Shape d n degree weighted s
      (.ofRows (weighted && decide (0 < n.toNat * degree.toNat))
        ((List.range n.toNat).map (d.rowAt n degree.toNat weighted s))) := by
  set rows := (List.range n.toNat).map (d.rowAt n degree.toNat weighted s) with hrows
  have hcount : rows.length = n.toNat := by rw [hrows, List.length_map, List.length_range]
  have hlength : ∀ row ∈ rows, row.length = degree.toNat := by
    intro row hrow
    obtain ⟨i, -, rfl⟩ := List.mem_map.1 hrow
    rw [Draws.rowAt, List.length_map, List.length_range]
  have hnode : ∀ {node : NodeId}, node.val < n → node.index < rows.length := fun h =>
    hcount ▸ UInt64.lt_iff_toNat_lt.1 h
  have hstart : ∀ i ≤ n.toNat, OffsetTable.rowStart rows i = i * degree.toNat := fun i hi =>
    rowStart_of_length hlength (hcount ▸ hi)
  have hpos : 0 < n.toNat * degree.toNat ↔ 0 < degree := by
    have htwo : 2 ≤ n.toNat := UInt64.le_iff_toNat_le.1 hn
    rw [Nat.mul_pos_iff_of_pos_left (by omega), UInt64.lt_iff_toNat_lt, UInt64.toNat_zero]
  have hdrawn : ∀ node : NodeId, node.val < n →
      (OffsetTable.ofRows (weighted && decide (0 < n.toNat * degree.toNat)) rows).relationships
        node = d.rowAt n degree.toNat weighted s node.index := by
    intro node h
    have hlt := hnode h
    have hrow : rows[node.index] = d.rowAt n degree.toNat weighted s node.index := by
      simp [hrows]
    rw [OffsetTable.relationships_ofRows hlt, hrow]
    intro hunweighted r hr
    rw [hrow] at hr
    cases weighted with
    | false => exact unit_of_mem_rowAt hr
    | true =>
      -- nothing has been drawn
      rw [Bool.true_and, decide_eq_false_iff_not, hpos, UInt64.lt_iff_toNat_lt] at hunweighted
      obtain ⟨j, hj, -⟩ := List.mem_map.1 hr
      have hj := List.mem_range.1 hj
      exact absurd (Nat.lt_of_le_of_lt (Nat.zero_le j) hj) hunweighted
  exact
    { nodeCount := by rw [OffsetTable.nodeCount_ofRows, hcount]
      small := fun h => absurd hn (UInt64.not_le.2 h)
      offsets := fun _ i hi => by rw [OffsetTable.offsets_ofRows (hcount ▸ hi), hstart i hi]
      regular := fun _ node h => by
        have hlt : node.index < n.toNat := UInt64.lt_iff_toNat_lt.1 h
        refine ⟨?_, by rw [hdrawn node h, Draws.rowAt, List.length_map, List.length_range]⟩
        rw [OffsetTable.degree, OffsetTable.stretch?_ofRows (hnode h)]
        dsimp only
        rw [if_pos (OffsetTable.rowStart_le_succ (hnode h)), hstart (node.index + 1) hlt,
          hstart node.index hlt.le, Nat.succ_mul, Nat.add_sub_cancel_left]
      targets := fun _ node h r hr => by
        rw [hdrawn node h] at hr
        have hspec := mem_rowAt hd hn (i := node.index) (UInt64.lt_iff_toNat_lt.1 h) hr
        rwa [NodeId.ofIndex_index] at hspec
      drawn := fun _ => hdrawn
      weights := fun _ => by
        rw [OffsetTable.isSome_weights_ofRows, Bool.and_eq_true, decide_eq_true_eq, hpos] }

/-- Nothing overflows, nothing is drawn from no candidates, and nothing is stored without room. The
    process is aborted exactly if the relationships have been reserved and the list of their weights
    fails to grow. If it is not, there is a graph of the promised shape exactly if the product of
    the node count and the degree is a word and all arrays can be reserved, and otherwise the graph
    is refused for want of memory. For a fixed source the draws stand for the other nodes, one for
    each. -/
theorem randomGraph_shape [Memory.Allocator] (d : Draws S W) (hd : d.Bounded) (grows : Nat → Bool)
    (n degree : UInt64) (weighted : Bool) (s : S) :
    (randomGraph? d grows n degree weighted s = .error .abort ↔
        Starved grows n degree weighted) ∧
      (¬ Starved grows n degree weighted →
        randomGraph? d grows n degree weighted s =
          .ok (randomGraph d n degree.toNat weighted s)) ∧
      ((∃ t, randomGraph d n degree.toNat weighted s = .ok t) ↔ Affordable n degree weighted) ∧
      (∀ t, randomGraph d n degree.toNat weighted s = .ok t → Shape d n degree weighted s t) ∧
      (∀ e, randomGraph d n degree.toNat weighted s = .error e →
        ∃ what requested, e = .resourceExhausted what requested) ∧
      ∀ source, 2 ≤ n → source < n →
        Set.BijOn (skipSource source) {drawn | drawn < n - 1}
          {target | target < n ∧ target ≠ source} := by
  have hmade (h : Affordable n degree weighted) :
      ∃ t, randomGraph d n degree.toNat weighted s = .ok t ∧ Shape d n degree weighted s t := by
    by_cases hn : n < 2
    · exact shape_of_lt hn ((affordable_iff_of_lt hn).1 h)
    · have hn := UInt64.not_lt.1 hn
      exact ⟨_, randomGraph_of_affordable hd hn h, shape_of_le hd hn⟩
  have hrefused (h : ¬ Affordable n degree weighted) :=
    randomGraph_of_not_affordable (s := s) hd h
  have hstopped : randomGraph? d grows n degree weighted s =
      if Starved grows n degree weighted then .error .abort
      else .ok (randomGraph d n degree.toNat weighted s) := randomGraph?_eq grows hd
  refine ⟨?_, fun h => hstopped.trans (if_neg h), ⟨?_, fun h => (hmade h).imp fun _ ht => ht.1⟩,
    ?_, ?_, fun source hn hsource => bijOn_skipSource hn hsource⟩
  · rw [hstopped]
    split <;> simp_all
  · rintro ⟨t, ht⟩
    by_contra h
    obtain ⟨what, requested, herror⟩ := hrefused h
    rw [herror] at ht
    cases ht
  · intro t ht
    by_cases h : Affordable n degree weighted
    · obtain ⟨t', ht', hshape⟩ := hmade h
      rw [ht] at ht'
      exact Except.ok.inj ht' ▸ hshape
    · obtain ⟨what, requested, herror⟩ := hrefused h
      rw [herror] at ht
      cases ht
  · intro e he
    by_cases h : Affordable n degree weighted
    · obtain ⟨t', ht', -⟩ := hmade h
      rw [he] at ht'
      cases ht'
    · obtain ⟨what, requested, herror⟩ := hrefused h
      rw [he] at herror
      exact ⟨what, requested, Except.error.inj herror⟩

/-- Three nodes with two relationships each, drawn from the stream of a seed, and more nodes than
    can be counted in. -/
theorem randomGraph_shape_threeNodes :
    (∃ t, randomGraph? KeyStream.draws (fun _ => true) 3 2 true (KeyStream.ofSeed 7) = .ok (.ok t) ∧
      seededGraph 3 2 7 true = .ok t ∧ t.nodeCount = 3 ∧ t.offsets[2]? = some 4 ∧
      t.weights.isSome ∧ ∀ r ∈ t.relationships ⟨1⟩, r.1 ≠ ⟨1⟩) ∧
      ∃ what requested, seededGraph 4294967296 4294967296 7 false =
        .error (.resourceExhausted what requested) := by
  obtain ⟨-, hgoes, hmade, hshape, -, -⟩ :=
    randomGraph_shape KeyStream.draws KeyStream.bounded_draws (fun _ => true) 3 2 true
      (KeyStream.ofSeed 7)
  obtain ⟨-, -, hmade', -, herror, -⟩ :=
    randomGraph_shape KeyStream.draws KeyStream.bounded_draws (fun _ => true) 4294967296 4294967296
      false (KeyStream.ofSeed 7)
  refine ⟨?_, ?_⟩
  · obtain ⟨t, ht⟩ := hmade.2 ⟨by decide, by decide⟩
    have h := hshape t ht
    exact ⟨t, (hgoes (by decide)).trans (congrArg _ ht), ht, h.nodeCount,
      h.offsets (by decide) 2 (by decide), (h.weights (by decide)).2 ⟨rfl, by decide⟩,
      fun r hr => (h.targets (by decide) ⟨1⟩ (by decide) r hr).2⟩
  · cases hgraph : seededGraph 4294967296 4294967296 7 false with
    | ok t => exact absurd (hmade'.1 ⟨t, hgraph⟩).1 (by decide)
    | error e =>
      obtain ⟨what, requested, rfl⟩ := herror e hgraph
      exact ⟨what, requested, rfl⟩

/-- All arrays of this graph can be reserved, but there is memory for no more than half of its
    weights while they are drawn: neither an error nor a graph, but the end of the process. -/
theorem weights_not_reserved :
    Affordable 1048576 64 true ∧
      randomGraph? KeyStream.draws (fun k => decide (k < 33554432)) 1048576 64 true
        (KeyStream.ofSeed 0) = .error .abort := by
  refine ⟨⟨by decide, by decide⟩, ?_⟩
  have hstarved : Starved (fun k => decide (k < 33554432)) 1048576 64 true :=
    ⟨by decide, by decide, by decide, fun h => absurd (h rfl 33554432 (by decide)) (by decide)⟩
  rw [randomGraph?_eq _ KeyStream.bounded_draws, if_pos hstarved]

end Shaping

end Random

end Superstep
