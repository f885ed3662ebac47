import Superstep.Run.Computation
import Superstep.Script.Payload

/-!
# Scripted computations

A `Script` is a computation given as data: a list of rules, each with conditions and actions. In a
step of a node the rules are tried in order, and the actions of each rule that matches at that
moment are carried out. The value of a node is a message and a log (`Record`); the log says for
every step of the node what it has read and what its questions about the graph were answered.
-/

namespace Superstep.Script

/-- A question about the graph. -/
inductive Question where
  | degree
  | neighbors
  /-- All relationships that leave the node. -/
  | relationships
  | weight (neighbor : NodeId)
  /-- Where the step takes place. -/
  | place
deriving DecidableEq

/-- The answer to a question. -/
inductive Answer (W : Type) where
  | degree (n : Nat)
  | neighbors (targets : List NodeId)
  | relationships (found : List (NodeId × W))
  | weight (found : Option W)
  | place (node : NodeId) (superstep : Nat) (isInitial : Bool) (nodeCount : UInt64)
      (relationshipCount : Nat)

/-- What a rule does. -/
inductive Action (M : Type) where
  | send (target : NodeId) (message : M)
  /-- Send the value of the node. -/
  | sendValue (target : NodeId)
  | sendNeighbors (message : M)
  | sendNeighborsValue
  | set (value : M)
  /-- Go back to what node 0 started with, with an empty log. -/
  | reset
  /-- Reduce the messages that have been read into the value. -/
  | fold (kind : Combiner)
  | halt
  | fail (reason : String)
  | panic (payload : PanicPayload)
  | ask (question : Question)

/-- A rule: conditions, each of which may be absent, and actions. -/
structure Rule (M : Type) where
  node : Option NodeId
  superstep : Option Nat
  earliest : Option Nat
  latest : Option Nat
  /-- Whether messages have arrived. -/
  hasMessages : Option Bool
  /-- Whether a reduction has changed the value in this step. -/
  changed : Option Bool
  actions : List (Action M)

/-- What the log says about one step of a node. -/
structure Entry (W M : Type) where
  superstep : Nat
  /-- The number of messages that have arrived. -/
  arrived : Nat
  read : List M
  answers : List (Answer W)

/-- The value of a node. -/
structure Record (W M : Type) where
  value : M
  log : Array (Entry W M)

/-- The part of a step that has been carried out. -/
structure Progress (W M : Type) where
  record : Record W M
  changed : Bool
  halt : Bool
  sends : Array (Send M)
  answers : Array (Answer W)
  failure : Option StepFailure

end Script

/-- A scripted computation. -/
structure Script (M : Type) where
  rules : List (Script.Rule M)
  /-- The initial values of the first nodes. -/
  init : List M
  /-- A combiner of the script's own. -/
  combiner : Option (M → M → M)
  /-- How many messages a step reads; the others stay unread. -/
  readLimit : Option Nat
  /-- Whether messages are read in ascending order and not in the order of their arrival. -/
  sorted : Bool
  /-- Whether steps are logged. -/
  logging : Bool

namespace Script

variable {W M : Type} [Payload M]

/-- The initial value of the node in slot `i`. -/
def initial (s : Script M) (i : Nat) : Record W M := ⟨(s.init[i]?).getD Payload.blank, #[]⟩

/-- The messages that a step reads. -/
def readMessages (s : Script M) (messages : List M) : List M :=
  let taken :=
    match s.readLimit with
    | some limit => messages.take limit
    | none => messages
  if s.sorted then taken.mergeSort Payload.le else taken

/-- Answers a question, and says how the step fails if the graph cannot be read for it. -/
def answer [Memory.Allocator] (view : NodeView W (Record W M) M) :
    Question → Answer W × Option StepFailure
  | .degree => (.degree view.degree, none)
  | .neighbors => (.neighbors (view.graph.neighbors view.node), view.listFault?)
  | .relationships => (.relationships (view.graph.relationships view.node), view.fault?)
  | .weight neighbor =>
    let (found, fault?) := view.graph.weight? view.node neighbor
    (.weight found, fault?.map .ofFault)
  | .place =>
    (.place view.node view.superstep view.isInitial view.graph.nodeCount
      view.graph.relationshipCount, none)

/-- Replaces the message of the value. -/
def Progress.setValue (p : Progress W M) (value : M) : Progress W M :=
  { p with record := { p.record with value } }

/-- Sends a message. -/
def Progress.send (p : Progress W M) (message : Send M) : Progress W M :=
  { p with sends := p.sends.push message }

/-- Reduces one message into the value. -/
def foldMessage (kind : Combiner) (p : Progress W M) (message : M) : Progress W M :=
  let value := Message.reduce kind p.record.value message
  let p := if Payload.same value p.record.value then p else { p with changed := true }
  p.setValue value

/-- Carries out an action. -/
def act [Memory.Allocator] (s : Script M) (view : NodeView W (Record W M) M) (read : List M)
    (p : Progress W M) :
    Action M → Progress W M
  | .send target message => p.send (.to target message)
  | .sendValue target => p.send (.to target p.record.value)
  | .sendNeighbors message => p.send (.toNeighbors message)
  | .sendNeighborsValue => p.send (.toNeighbors p.record.value)
  | .set value => p.setValue value
  | .reset => { p with record := s.initial 0 }
  | .fold kind => read.foldl (foldMessage kind) p
  | .halt => { p with halt := true }
  | .fail reason => { p with failure := some (.error reason) }
  | .panic payload => { p with failure := some (.panic payload) }
  | .ask question =>
    let (found, failure) := answer view question
    { p with answers := p.answers.push found, failure }

/-- Carries out actions until the step fails. -/
def actAll [Memory.Allocator] (s : Script M) (view : NodeView W (Record W M) M) (read : List M) :
    Progress W M → List (Action M) → Progress W M
  | p, [] => p
  | p, a :: rest =>
    let p := s.act view read p a
    if p.failure.isSome then p else actAll s view read p rest

/-- Whether a condition, if it is given, holds. -/
def holds {α : Type} (condition : Option α) (test : α → Bool) : Bool :=
  match condition with
  | some x => test x
  | none => true

/-- Whether a rule matches. -/
def Rule.applies (r : Rule M) (view : NodeView W (Record W M) M) (changed : Bool) : Bool :=
  holds r.node (· = view.node) && holds r.superstep (· = view.superstep) &&
    holds r.earliest (· ≤ view.superstep) && holds r.latest (view.superstep ≤ ·) &&
    holds r.hasMessages (· == !view.messages.isEmpty) && holds r.changed (· == changed)

/-- Tries rules until the step fails. -/
def applyRules [Memory.Allocator] (s : Script M) (view : NodeView W (Record W M) M)
    (read : List M) :
    Progress W M → List (Rule M) → Progress W M
  | p, [] => p
  | p, r :: rest =>
    let p := if r.applies view p.changed then s.actAll view read p r.actions else p
    if p.failure.isSome then p else applyRules s view read p rest

/-- The step of a node. -/
def step [Memory.Allocator] (s : Script M) (view : NodeView W (Record W M) M) :
    Outcome (Record W M) M :=
  let read := s.readMessages view.messages
  let p := s.applyRules view read ⟨view.value, false, false, #[], #[], none⟩ s.rules
  let entry : Entry W M := ⟨view.superstep, view.messages.length, read, p.answers.toList⟩
  let record := if s.logging then { p.record with log := p.record.log.push entry } else p.record
  ⟨record, p.sends.toList, p.halt, p.failure⟩

/-- The computation of a script. -/
def computation [Memory.Allocator] (s : Script M) : Computation W (Record W M) M where
  init _ node := s.initial node.index
  step := s.step
  combiner := s.combiner

end Superstep.Script
