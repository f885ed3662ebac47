/-!
# Progress tracking

A run reports its progress to a tracker: once when it starts, then for every superstep its volume,
the numbers of nodes that have been executed, batch by batch, and its end. A `Tracker` is a state
machine that takes these reports. A tracker may panic; its panic carries a payload, which is a text
or something that cannot be shown.
-/

namespace Superstep

/-- What a panic carries. -/
inductive PanicPayload where
  | text (message : String)
  /-- Anything that is not a text. -/
  | other
deriving DecidableEq

/-- What is shown of a panic. -/
def PanicPayload.message : PanicPayload → String
  | .text message => message
  | .other => "non-string panic payload"

/-- A report to a progress tracker. -/
inductive Report where
  | beginTask
  /-- A superstep begins that executes `volume` nodes. -/
  | beginSubTask (volume : Nat)
  /-- That many more nodes have been executed. -/
  | logProgress (processed : Nat)
  | endSubTask
deriving DecidableEq

/-- A progress tracker with states `T`: what a report makes of a state, and the panic it causes, if
    any. -/
structure Tracker (T : Type) where
  take : Report → T → T × Option PanicPayload

namespace Tracker

/-- The tracker that ignores all reports. -/
def silent : Tracker Unit := ⟨fun _ s => (s, none)⟩

end Tracker

end Superstep
