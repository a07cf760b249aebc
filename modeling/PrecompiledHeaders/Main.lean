import PrecompiledHeaders.Program.Workplace

/-!
# The program

Reads a workplace from the first line of the standard input, and runs the program there with the
given arguments.
-/

/-- Prints what the run prints, and gives its exit code. -/
def main (arguments : List String) : IO UInt32 := do
  let line ← (← IO.getStdin).getLine
  let output := PrecompiledHeaders.Program.Workplace.runIn line arguments
  IO.eprint output.err
  IO.print output.out
  return output.code.toUInt32
