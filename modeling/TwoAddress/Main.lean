/-
  TwoAddress.Main
  ───────────────
  **THE PROGRAM.**

  Hands the arguments to `CommandLine.run`, and its output and exit code to
  the outside world.
-/
import TwoAddress.CommandLine

/-- Run the command line. -/
def main (args : List String) : IO UInt32 := do
  let exit := TwoAddress.CommandLine.run args
  IO.print exit.output
  match exit.message with
  | some message => IO.eprintln message
  | none => pure ()
  return exit.code.toUInt32
