import PatternAutomata.CommandLine

/-!
# The program

Reads the arguments, runs the command and writes what it reports.
-/

/-- The command line program. -/
def main (arguments : List String) : IO UInt32 := do
  let report := PatternAutomata.CommandLine.run arguments
  IO.print report.output
  IO.eprint report.errors
  return UInt32.ofNat report.exitCode
