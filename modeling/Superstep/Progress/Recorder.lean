import Superstep.Progress.Tracker

/-!
# Recording progress

`Recorder` is a tracker that keeps every report. It can be told to panic at a report of a given
kind, which is numbered from one among the reports of that kind, after it has recorded it.
-/

namespace Superstep

/-- The kinds of reports. -/
inductive ReportKind where
  | task
  | start
  | log
  | finish
deriving DecidableEq

namespace ReportKind

/-- The name of a kind of reports. -/
def name : ReportKind → String
  | .task => "task"
  | .start => "begin"
  | .log => "log"
  | .finish => "end"

/-- The kind with the given name. -/
def ofName? (name : String) : Option ReportKind :=
  [ReportKind.task, .start, .log, .finish].find? (·.name = name)

end ReportKind

/-- The kind of a report. -/
def Report.kind : Report → ReportKind
  | .beginTask => .task
  | .beginSubTask _ => .start
  | .logProgress _ => .log
  | .endSubTask => .finish

/-- The reports taken so far, and the report at which to panic: its kind and its number among the
    reports of that kind. -/
structure Recorder where
  reports : Array Report
  fault : Option (ReportKind × Nat)

namespace Recorder

/-- A recorder without reports. -/
def new (fault : Option (ReportKind × Nat)) : Recorder := ⟨#[], fault⟩

/-- The number of reports of a kind. -/
def countOf (r : Recorder) (kind : ReportKind) : Nat := r.reports.toList.countP (·.kind = kind)

/-- The panic of a report of the given kind, with the given number among those. -/
def panicAt (r : Recorder) (kind : ReportKind) (number : Nat) : Option PanicPayload :=
  if r.fault = some (kind, number) then some (.text ("tracker " ++ kind.name ++ " failed"))
  else none

/-- The tracker that records. -/
def tracker : Tracker Recorder where
  take report r :=
    ({ r with reports := r.reports.push report },
      r.panicAt report.kind (r.countOf report.kind + 1))

end Recorder

end Superstep
