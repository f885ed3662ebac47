import Superstep.Progress.Tracker
import Superstep.Word

/-!
# Logging the progress of supersteps

`LoggingProgress` counts the supersteps of a task and the nodes executed in the current one, and
logs when a superstep starts, when it has passed another tenth of its volume, and when it ends. Each
tenth is logged at most once.

Counts are words. What is done is counted in one action that wraps; the sum of the same two words,
and the product from which the tenth is computed, are checked, and a call in which one of them is no
word panics. By then it has been counted.
-/

namespace Superstep

/-- A line of the progress log. -/
inductive ProgressEvent where
  | started (superstep : UInt32) (activeNodes : UInt64)
  | progress (percent : UInt64)
  | finished (superstep : UInt32) (processed : UInt64)
deriving DecidableEq

/-- A result that is no word. -/
inductive Overflow where
  | sum
  | product
deriving DecidableEq

namespace Overflow

/-- The text of the panic. -/
def message : Overflow → String
  | .sum => "attempt to add with overflow"
  | .product => "attempt to multiply with overflow"

/-- What the panic carries. -/
def payload (o : Overflow) : PanicPayload := .text o.message

end Overflow

/-- The state of the log of one task. -/
structure LoggingProgress where
  task : String
  /-- The number of supersteps finished since the task has begun. -/
  superstep : UInt32
  /-- The number of nodes of the current superstep. -/
  volume : UInt64
  /-- How many of them have been executed. -/
  processed : UInt64
  /-- The last tenth that has been logged. -/
  reported : UInt64
deriving DecidableEq

namespace LoggingProgress

/-- The log of a task that has not begun. -/
def new (task : String) : LoggingProgress := ⟨task, 0, 0, 0, 0⟩

/-- The tenth of the volume that has been reached; an empty volume counts as one node. Ten times
    what is done has to be a word. -/
def tenth? (volume done : UInt64) : Option UInt64 :=
  let volume := max volume 1
  (Word.mul? (min done volume) 10).map (· / volume)

/-- The tenth to which a call about `n` more nodes comes. -/
def reach (p : LoggingProgress) (n : UInt64) : Except Overflow UInt64 :=
  match Word.add? p.processed n with
  | none => .error .sum
  | some done =>
    match tenth? p.volume done with
    | none => .error .product
    | some tenth => .ok tenth

/-- Takes a report: the log after it, and what is logged or why the report panics. A tenth is at
    most ten, so that its percentage is a word. -/
def take (p : LoggingProgress) : Report → LoggingProgress × Except Overflow (List ProgressEvent)
  | .beginTask => ({ p with superstep := 0, processed := 0, reported := 0 }, .ok [])
  | .beginSubTask volume =>
    ({ p with volume := volume.toUInt64, processed := 0, reported := 0 },
      .ok [.started p.superstep volume.toUInt64])
  | .logProgress n =>
    let counted := { p with processed := p.processed + n.toUInt64 }
    match p.reach n.toUInt64 with
    | .error overflow => (counted, .error overflow)
    | .ok tenth =>
      if p.reported < tenth then
        ({ counted with reported := tenth }, .ok [.progress (tenth * 10)])
      else (counted, .ok [])
  | .endSubTask =>
    ({ p with superstep := p.superstep + 1 }, .ok [.finished p.superstep p.processed])

/-- What a report logs. -/
def events (p : LoggingProgress) (report : Report) : List ProgressEvent :=
  match (p.take report).2 with
  | .ok events => events
  | .error _ => []

/-- The panic of a report. -/
def panic? (p : LoggingProgress) (report : Report) : Option PanicPayload :=
  match (p.take report).2 with
  | .ok _ => none
  | .error overflow => some overflow.payload

/-- The tracker that keeps a log. -/
def tracker : Tracker LoggingProgress := ⟨fun report p => ((p.take report).1, p.panic? report)⟩

end LoggingProgress

end Superstep
