import Superstep.Message.Combiner

/-!
# The reduction in force

A run treats several messages to one node in one of three ways: it keeps them all, reduces them with
a built-in combiner, or reduces them with a combiner of the computation's own.
-/

namespace Superstep

/-- How several messages to one node are treated. -/
inductive Reduction (M : Type) where
  | keep
  | builtin (kind : Combiner)
  | custom (combine : M → M → M)

namespace Reduction

variable {M : Type}

/-- The reduction of a run: a combiner of the computation's own comes before the configured one. -/
def choose (custom : Option (M → M → M)) (configured : Combiner) : Reduction M :=
  match custom, configured with
  | some combine, _ => .custom combine
  | none, .none => .keep
  | none, kind => .builtin kind

/-- Whether a node has at most one message waiting. -/
def isCombining : Reduction M → Bool
  | .keep => false
  | .builtin _ => true
  | .custom _ => true

/-- The message that takes the place of one that waits and one that arrives. -/
def apply [Message M] : Reduction M → M → M → M
  | .keep, current, _ => current
  | .builtin kind, current, incoming => Message.reduce kind current incoming
  | .custom combine, current, incoming => combine current incoming

/-- The name of a reduction. -/
def name : Reduction M → String
  | .keep => "none"
  | .builtin kind => kind.name
  | .custom _ => "custom"

end Reduction

end Superstep
