import StackMachine.CommandLine

/-!
# The program

Prints what `CommandLine.respond` computes.  Every program of the catalog ends, so the fuel is
only a number that no execution reaches.
-/

def main (words : List String) : IO UInt32 := do
  match StackMachine.CommandLine.respond (Nat.pow 2 62) false words with
  | some report =>
    IO.print (StackMachine.CommandLine.joinLines report.out)
    IO.eprint (StackMachine.CommandLine.joinLines report.err)
    return report.exitCode.toUInt32
  | none => return 3
