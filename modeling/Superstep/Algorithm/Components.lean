import Superstep.Message.Payload
import Superstep.Run.Computation

/-!
# Connected components

Every node starts with its own id as its label and takes over the smallest label that reaches it. It
tells its neighbours its label at first and whenever the label has become smaller, and then sleeps.
On a graph with every relationship in both directions each node ends with the smallest id of its
component. The combiner to run it with is `min`.

Main statement: `smallest?_eq_none_iff`, there is a smallest message exactly if there is a message.
-/

namespace Superstep.Components

/-- The smallest of some labels. -/
def smallest? : List (Unsigned 64) → Option (Unsigned 64)
  | [] => none
  | m :: ms => some (ms.foldl (Message.reduce .min) m)

theorem smallest?_eq_none_iff {ms : List (Unsigned 64)} : smallest? ms = none ↔ ms = [] := by
  cases ms <;> simp [smallest?]

/-- The step of a node. -/
def step {W : Type} (view : NodeView W (Unsigned 64) (Unsigned 64)) :
    Outcome (Unsigned 64) (Unsigned 64) :=
  let label := view.value
  let improved :=
    if view.isInitial then some label
    else (smallest? view.messages).filter fun m => m.toNat < label.toNat
  match improved with
  | some label => ⟨label, [.toNeighbors label], true, none⟩
  | none => ⟨label, [], true, none⟩

/-- The computation of connected components. -/
def computation {W : Type} : Computation W (Unsigned 64) (Unsigned 64) where
  init _ node := .ofNat node.index
  step
  combiner := none

end Superstep.Components
