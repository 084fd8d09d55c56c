import StackMachine.Catalog.Programs
import StackMachine.CommandLine.RunOptions
import StackMachine.Machine

/-!
# The command line

Three commands work on the catalog: `list` shows it, `verify` reports every fault of a program,
and `run` executes one.  `respond` computes what is printed and the exit code.

Exit codes: `0` for success, `1` for a wrong use of the command line, `2` for a program that
validation refuses, `3` for an execution that fails.
-/

namespace StackMachine.CommandLine

structure Report where
  exitCode : Nat
  out : List String := []
  err : List String := []
  deriving DecidableEq

def joinLines (lines : List String) : String :=
  String.join (lines.map (· ++ "\n"))

/-! ### Help -/

def usage : List String :=
  ["Usage: arborate <command> [args]",
    "",
    "Commands:",
    "  list                                   List catalog programs",
    "  verify <name>                          Report every validation error",
    "  run <name> [options] [ARG...]          Validate and execute a program",
    "",
    "Run options:",
    "  --entry N        Entry function index (default 0)",
    "  --max-depth N    Call frame limit (default 1024)",
    "  --max-stack N    Operand stack limit (default 4096)",
    "",
    "ARG is true, false or a decimal integer, pushed in order."]

def runUsage : String :=
  "Usage: arborate run <name> [--entry N] [--max-depth N] [--max-stack N] [ARG...]"

/-! ### Commands -/

/-- A line of the list: the name, filled up to sixteen columns, and the intent. -/
def listLine (e : Catalog.Entry) : String :=
  String.ofList (e.name.toList.rightpad 16 ' ') ++ e.intent

def list : List String → Report
  | [] => { exitCode := 0, out := Catalog.all.map listLine }
  | _ :: _ =>
    { exitCode := 1, err := ["error: list takes no arguments", "Usage: arborate list"] }

/-- The program named by the first word, and the words after it. -/
def lookup (command : String) : List String → Except Report (Catalog.Entry × List String)
  | [] =>
    .error
      { exitCode := 1
        err :=
          ["error: " ++ command ++ " requires a program name",
            "Usage: arborate " ++ command ++ " <name>"] }
  | name :: rest =>
    match Catalog.find? name with
    | some entry => .ok (entry, rest)
    | none =>
      .error
        { exitCode := 1
          err := ["error: unknown program '" ++ name ++ "' (see 'arborate list')"] }

/-- Every fault of a program, or its name if it has none. -/
def verifyProgram (e : Catalog.Entry) : Report :=
  match diagnose e.definitions with
  | [] =>
    { exitCode := 0
      out :=
        ["OK: " ++ e.name ++ " (" ++ Decimal.ofNat e.definitions.length ++ " functions)"] }
  | faults => { exitCode := 2, err := faults.map ("error: " ++ ·.message) }

/-- Verify the named program.  Further words are ignored. -/
def verify (words : List String) : Report :=
  match lookup "verify" words with
  | .error report => report
  | .ok (entry, _) => verifyProgram entry

def announcement (e : Catalog.Entry) (o : RunOptions) : String :=
  "[INFO  arborate::commands] running " ++ e.name ++ " from function " ++
    Decimal.ofNat o.entry ++ " with " ++ Decimal.ofNat o.arguments.length ++ " argument(s)"

/-- An execution that gets stuck takes the process with it. -/
def outcomeReport : Outcome → Report
  | .returned values => { exitCode := 0, out := values.map Value.text }
  | .failed (.fault fault) => { exitCode := 3, err := ["runtime error: " ++ fault.message] }
  | .failed .stuck => { exitCode := 101 }

/-- Read the options, then validate, then execute; the first that fails decides. -/
def runProgram (fuel : Nat) (verbose : Bool) (e : Catalog.Entry) (words : List String) :
    Option Report :=
  match RunOptions.read words with
  | .error problem =>
    some { exitCode := 1, err := ["error: " ++ problem.message, runUsage] }
  | .ok o =>
    match Machine.ofDefinitions e.definitions with
    | .error fault => some { exitCode := 2, err := ["error: " ++ fault.message] }
    | .ok machine =>
      ((machine.withLimits o.limits).call fuel o.entry o.arguments).map fun outcome =>
        let report := outcomeReport outcome
        if verbose then { report with err := announcement e o :: report.err } else report

def run (fuel : Nat) (verbose : Bool) (words : List String) : Option Report :=
  match lookup "run" words with
  | .error report => some report
  | .ok (entry, rest) => runProgram fuel verbose entry rest

/-! ### The whole command line -/

/-- The answer to the words after the program name.  It is `none` if an execution did not end
within its fuel.  With `verbose`, an execution is announced. -/
def respond (fuel : Nat) (verbose : Bool) : List String → Option Report
  | [] => some { exitCode := 1, err := usage }
  | "list" :: rest => some (list rest)
  | "verify" :: rest => some (verify rest)
  | "run" :: rest => run fuel verbose rest
  | "--help" :: _ | "-h" :: _ | "help" :: _ => some { exitCode := 0, err := usage }
  | command :: _ =>
    some
      { exitCode := 1
        err := ["error: unknown command '" ++ command ++ "'", ""] ++ usage }

end StackMachine.CommandLine
