import StackMachine.Execution.State

/-!
# Options of a run

The words after the name of a program are flags with a number each, and values.  They may stand in
any order.  A flag that is given twice has its last number, and the values are the arguments in
their order.

Words are read from the left, and the first that makes no sense is reported.
-/

namespace StackMachine.CommandLine

/-! ### Values -/

def readValue? : String → Option Value
  | "true" => some (.boolean true)
  | "false" => some (.boolean false)
  | text => (Decimal.readInt64? text).map .integer

/-! ### Flags -/

inductive Flag where
  | entry
  | maxDepth
  | maxStack
  deriving DecidableEq

def Flag.text : Flag → String
  | .entry => "--entry"
  | .maxDepth => "--max-depth"
  | .maxStack => "--max-stack"

def Flag.ofText? (text : String) : Option Flag :=
  [Flag.entry, Flag.maxDepth, Flag.maxStack].find? (·.text = text)

/-- The number of a flag.  It must fit into 64 bits. -/
def readNumber? (text : String) : Option Nat :=
  Decimal.readNat? UInt64.size text

/-! ### Options -/

structure RunOptions where
  entry : Nat := 0
  limits : Limits := {}
  arguments : List Value := []
  deriving DecidableEq

inductive UsageError where
  | unknownOption (text : String)
  | missingNumber (flag : Flag)
  | badNumber (flag : Flag) (text : String)
  | badValue (text : String)
  deriving DecidableEq

def UsageError.message : UsageError → String
  | .unknownOption text => "unknown option '" ++ text ++ "'"
  | .missingNumber flag => flag.text ++ " requires a value"
  | .badNumber flag text =>
    flag.text ++ " expects a non-negative integer, got '" ++ text ++ "'"
  | .badValue text => "'" ++ text ++ "' is not true, false or an integer"

namespace RunOptions

def set (o : RunOptions) (n : Nat) : Flag → RunOptions
  | .entry => { o with entry := n }
  | .maxDepth => { o with limits := { o.limits with callDepth := n } }
  | .maxStack => { o with limits := { o.limits with stackDepth := n } }

def addArgument (o : RunOptions) (value : Value) : RunOptions :=
  { o with arguments := o.arguments ++ [value] }

/-- A word that is no flag: a value, unless it looks like a flag. -/
def readWord (text : String) : Except UsageError Value :=
  match text.toList with
  | '-' :: '-' :: _ => .error (.unknownOption text)
  | _ =>
    match readValue? text with
    | some value => .ok value
    | none => .error (.badValue text)

/-- Read words from the left into the options found so far. -/
def readFrom (o : RunOptions) : List String → Except UsageError RunOptions
  | [] => .ok o
  | [word] =>
    match Flag.ofText? word with
    | some flag => .error (.missingNumber flag)
    | none => (readWord word).map o.addArgument
  | word :: next :: rest =>
    match Flag.ofText? word with
    | some flag =>
      match readNumber? next with
      | some n => (o.set n flag).readFrom rest
      | none => .error (.badNumber flag next)
    | none =>
      match readWord word with
      | .ok value => (o.addArgument value).readFrom (next :: rest)
      | .error e => .error e

def read (words : List String) : Except UsageError RunOptions :=
  readFrom {} words

end RunOptions

end StackMachine.CommandLine
