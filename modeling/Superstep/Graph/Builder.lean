import Superstep.Graph.Error
import Superstep.Graph.OffsetTable

/-!
# Building graphs

A `Builder` collects relationships in the order in which they are added and freezes them into an
offset table. The first relationship decides whether the graph is weighted. An undirected builder
stores every relationship in both directions, a self-loop once.

Freezing is a stable counting sort by source, so that the relationships of a node keep the order in
which they were added: `countSources` counts, `sumOffsets` turns the counts into offsets, and
`place` writes each relationship to the next free place of its source.

Main statements: `add_of_source_not_found` and `addWeighted_of_source_not_found`, an unknown source
is reported before anything else; `size_push`, an addition stores one relationship, or two if the
builder is undirected.
-/

namespace Superstep

/-- Relationships in the order of their addition. A weighted builder has one weight for each. -/
structure Builder (W : Type) where
  nodeCount : UInt64
  /-- Whether additions are stored in both directions from now on. -/
  undirected : Bool
  relationships : Array (NodeId × NodeId)
  weights : Option (Array W)

namespace Builder

variable {W : Type}

/-- A builder of a directed graph with no relationships. -/
def new (nodeCount : UInt64) : Builder W := ⟨nodeCount, false, #[], none⟩

/-- The builder stores what is added from now on in both directions. -/
def asUndirected (b : Builder W) : Builder W := { b with undirected := true }

/-- The number of stored relationships. -/
def size (b : Builder W) : Nat := b.relationships.size

/-! ## Additions -/

/-- Stores one relationship in one direction. -/
def store (b : Builder W) (source target : NodeId) (weight : Option W) : Builder W :=
  { b with
    relationships := b.relationships.push (source, target)
    weights :=
      match weight with
      | some w => some ((b.weights.getD #[]).push w)
      | none => b.weights }

/-- Stores a relationship, and its reverse if the builder is undirected and it is not a
    self-loop. -/
def push (b : Builder W) (source target : NodeId) (weight : Option W) : Builder W :=
  let stored := b.store source target weight
  if b.undirected && source ≠ target then stored.store target source weight else stored

/-- Refuses an id that is not the id of a node. -/
def checkNode (b : Builder W) (id : NodeId) : Except AddError Unit :=
  if id.val < b.nodeCount then .ok () else .error (.nodeNotFound id b.nodeCount)

/-- Adds a relationship without a weight. -/
def add (b : Builder W) (source target : NodeId) : Except AddError (Builder W) := do
  b.checkNode source
  b.checkNode target
  if b.weights.isSome then
    throw (.invalid (.weightMissing source target))
  return b.push source target none

/-- Adds a relationship with a weight. -/
def addWeighted [Weight W] (b : Builder W) (source target : NodeId) (weight : W) :
    Except AddError (Builder W) := do
  b.checkNode source
  b.checkNode target
  if !Weight.isFinite weight then
    throw (.invalid (.weightNotFinite source target (String.ofList (Weight.digits weight))))
  if b.weights.isNone && b.relationships.size != 0 then
    throw (.invalid (.weightUnexpected source target))
  return b.push source target (some weight)

/-- Adds a relationship with or without a weight. -/
def addEither [Weight W] (b : Builder W) (source target : NodeId) :
    Option W → Except AddError (Builder W)
  | some weight => b.addWeighted source target weight
  | none => b.add source target

/-- Makes room for `additional` more relationships, or fails. An undirected builder needs twice
    as many, which must still be a machine word. -/
def reserve [Memory.Allocator] (b : Builder W) (additional : Nat) : Except GraphError Unit :=
  let stored := if b.undirected then additional * 2 else additional
  if stored < wordLimit && Memory.fits stored Memory.pairBytes then .ok ()
  else .error (.resourceExhausted "relationships" additional)

/-! ## Freezing -/

/-- The number of relationships that leave node `i`, stored at `i + 1`. -/
def countSources (slots : Nat) (relationships : Array (NodeId × NodeId)) : Array Nat :=
  relationships.foldl (fun counts r => counts.modify (r.1.index + 1) (· + 1))
    (Array.replicate slots 0)

/-- Running sums: each entry becomes the sum of all entries up to and including it. -/
def sumOffsets (counts : Array Nat) : Array Nat :=
  (counts.foldl (fun (sums, total) count => (sums.push (total + count), total + count))
    (#[], 0)).1

/-- The places that the relationships take: for the relationship at each position of the builder,
    its position in the offset table. -/
def places (offsets : Array Nat) (relationships : Array (NodeId × NodeId)) : Array Nat :=
  (relationships.foldl
    (fun (placed, cursor) r =>
      (placed.push (cursor.getD r.1.index 0), cursor.modify r.1.index (· + 1)))
    (#[], offsets)).1

/-- Writes each element of `items` to its place in an array. -/
def place {α : Type} (blank : α) (places : Array Nat) (items : Array α) : Array α :=
  (places.zip items).foldl (fun out (slot, item) => out.setIfInBounds slot item)
    (Array.replicate items.size blank)

/-- Freezes the relationships into an offset table. Each array is reserved first. -/
def build [Memory.Allocator] [Weight W] (b : Builder W) : Except GraphError (OffsetTable W) := do
  let slots := b.nodeCount.toNat + 1
  if wordLimit ≤ slots then
    throw (.resourceExhausted "node offsets" b.nodeCount.toNat)
  GraphError.reserve "node offsets" slots Memory.wordBytes
  GraphError.reserve "relationships" b.relationships.size Memory.wordBytes
  match b.weights with
  | some weights => GraphError.reserve "relationship weights" weights.size Memory.wordBytes
  | none => pure ()
  let offsets := sumOffsets (countSources slots b.relationships)
  let slotOf := places offsets b.relationships
  return {
    offsets
    targets := place default slotOf (b.relationships.map Prod.snd)
    weights := b.weights.map (place Weight.unit slotOf) }

/-- Adds relationships one after the other. -/
def addAll [Weight W] (b : Builder W) : List (NodeId × NodeId × Option W) →
    Except AddError (Builder W)
  | [] => .ok b
  | (source, target, weight) :: rest => do
    let b ← b.addEither source target weight
    b.addAll rest

/-! ## Small facts -/

@[simp] theorem size_store (b : Builder W) (source target : NodeId) (weight : Option W) :
    (b.store source target weight).size = b.size + 1 := by
  simp [store, size]

/-- An addition stores one relationship, or two if the builder is undirected. -/
theorem size_push (b : Builder W) (source target : NodeId) (weight : Option W) :
    (b.push source target weight).size =
      b.size + if b.undirected && source ≠ target then 2 else 1 := by
  unfold push
  split <;> simp_all

/-- An unknown source is reported before anything else. -/
theorem add_of_source_not_found {b : Builder W} {source : NodeId} (h : ¬ source.val < b.nodeCount)
    (target : NodeId) : b.add source target = .error (.nodeNotFound source b.nodeCount) := by
  simp [add, checkNode, h, bind, Except.bind]

theorem addWeighted_of_source_not_found [Weight W] {b : Builder W} {source : NodeId}
    (h : ¬ source.val < b.nodeCount) (target : NodeId) (weight : W) :
    b.addWeighted source target weight = .error (.nodeNotFound source b.nodeCount) := by
  simp [addWeighted, checkNode, h, bind, Except.bind]

end Builder

namespace OffsetTable

variable {W : Type}

/-- The directed graph with the given relationships. -/
def ofRelationships [Memory.Allocator] [Weight W] (nodeCount : UInt64)
    (relationships : List (NodeId × NodeId × Option W)) : Except GraphError (OffsetTable W) :=
  match (Builder.new nodeCount).addAll relationships with
  | .ok b => b.build
  | .error e => .error (.refused e)

/-- All relationships of a graph, source by source, as a builder takes them. -/
def arcs [Weight W] (g : OffsetTable W) : List (NodeId × NodeId × Option W) :=
  (List.range g.nodeCount).flatMap fun i =>
    let node := NodeId.ofIndex i
    (g.relationships node).map fun (target, w) =>
      (node, target, if g.weights.isSome then some w else none)

/-- The graph with the reverse of every relationship added. -/
def undirected [Memory.Allocator] [Weight W] (g : OffsetTable W) :
    Except GraphError (OffsetTable W) :=
  match (Builder.new g.nodeCount.toUInt64).asUndirected.addAll g.arcs with
  | .ok b => b.build
  | .error e => .error (.refused e)

end OffsetTable

end Superstep
