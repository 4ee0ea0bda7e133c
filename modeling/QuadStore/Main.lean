import QuadStore.CommandLine.Execution
/-!
# The program

Reads the files that the command line names, carries out the request and prints what it leaves.
-/

namespace QuadStore.CommandLine

/-- The contents of a file, if it can be read. -/
def readIfPossible (path : String) : IO (Option String) := do
  try
    return some (← IO.FS.readFile path)
  catch _ =>
    return none

/-- Print what a run leaves. -/
def Outcome.report (o : Outcome) : IO UInt32 := do
  IO.print o.output
  o.complaint.forM fun complaint => IO.eprintln complaint
  return o.code.toUInt32

end QuadStore.CommandLine

def main (arguments : List String) : IO UInt32 := do
  let contents ← (QuadStore.CommandLine.pathsOf arguments).mapM fun path => do
    return (path, ← QuadStore.CommandLine.readIfPossible path)
  (QuadStore.CommandLine.run (fun path => (contents.lookup path).join) arguments).report
