import Superstep.Cli.Execution

/-!
# The program

Reads the command line, executes the command on the files of the machine, and prints what it has to
show. Summaries and graphs go to the standard output, errors and the log of a verbose run to the
standard error output.
-/

namespace Superstep.Cli

/-- Whether an error number, which may come negated, is the given one. -/
def isCode (code : UInt32) (number : UInt32) : Bool := code = number || code = 0 - number

/-- Why an access to a file of the machine failed, in words. -/
def describe (e : IO.Error) : String :=
  match e with
  | .noFileOrDirectory _ _ _ => Folder.notFound
  | .inappropriateType _ code _ => if isCode code 21 then Folder.isAFolder else Folder.notAFolder
  | .permissionDenied _ _ _ => "Permission denied (os error 13)"
  | e => toString e

/-- Access to the files of the machine. -/
def machineFiles : FileAccess IO where
  read path := do
    try
      let bytes ← IO.FS.readBinFile path
      return .ok bytes.toList
    catch e => return .error (describe e)
  write path content := do
    try
      IO.FS.writeFile path content
      return .ok ()
    catch e => return .error (describe e)

/-- A line of the log. -/
def logLine (task : String) : ProgressEvent → String
  | .started superstep n =>
    "superstep started task=" ++ task ++ " superstep=" ++ Decimal.text superstep.toNat ++
      " active_nodes=" ++ Decimal.text n.toNat
  | .progress percent => "progress task=" ++ task ++ " percent=" ++ Decimal.text percent.toNat
  | .finished superstep n =>
    "superstep finished task=" ++ task ++ " superstep=" ++ Decimal.text superstep.toNat ++
      " processed=" ++ Decimal.text n.toNat

/-- The name under which a command logs. -/
def Command.task : Command → String
  | .run o => o.algorithm.name
  | .generate _ => "generate"

/-- What is shown when the command line is not understood. -/
def usage : String :=
  "usage: superstep run (--edges FILE | --random NODES) [--degree N] [--seed N] [-a ALGORITHM]\n" ++
    "         [--source ID] [-c WORKERS] [-i SUPERSTEPS] [--undirected] [--config JSON] [-v]\n" ++
    "       superstep generate -n NODES [-d N] [-s SEED] [--weighted] [-o FILE] [-v]"

end Superstep.Cli

open Superstep.Cli in
/-- The program. -/
def main (arguments : List String) : IO UInt32 := do
  match Invocation.read? arguments with
  | none =>
    IO.eprintln usage
    return usageExitCode.toUInt32
  | some invocation =>
    let (ending, events) ← invocation.command.execute machineFiles
    if invocation.verbose then
      for event in events do
        IO.eprintln (logLine invocation.command.task event)
    match ending with
    | .ok (.finished summary) => IO.println summary.toJson.pretty
    | .ok (.edgeList text) => IO.print text
    | .ok .saved => pure ()
    | .error e =>
      IO.eprintln ("Error: " ++ e.message)
      return e.exitCode.toUInt32
    return 0
