import StackMachine.Opcode

/-!
# Faults

A fault is a reason why a program is refused or why its execution stops.  Each carries what is
needed to find its cause: the function, the position of the instruction where there is one, and
the numbers or types that disagree.  `Fault.message` puts it into words.

The first eight can be seen before anything runs; the other nine only while running
(`Fault.phase`).
-/

namespace StackMachine

structure Site where
  function : Nat
  position : Nat
  deriving DecidableEq

def Site.text (s : Site) : String :=
  "in function " ++ Decimal.ofNat s.function ++ " at instruction " ++ Decimal.ofNat s.position

inductive Fault where
  /-- The code of an instruction belongs to no opcode. -/
  | unassignedCode (site : Site) (code : UInt16)
  /-- An opcode that needs an operand has none. -/
  | missingOperand (site : Site) (opcode : Opcode)
  /-- The operand is of another kind than the opcode needs. -/
  | wrongOperandKind (site : Site) (opcode : Opcode) (expected : OperandKind)
  /-- An opcode that takes no operand has one. -/
  | unexpectedOperand (site : Site) (opcode : Opcode)
  /-- A branch leads out of the code or to itself. -/
  | badBranchTarget (site : Site) (target : Int64) (length : Nat)
  /-- An instruction refers to a slot that the function does not have. -/
  | badSlotIndex (site : Site) (index : Int64) (slots : Nat)
  /-- A call refers to a function that the program does not have. -/
  | badFunctionIndex (site : Site) (index : Int64) (functions : Nat)
  /-- A function declares no outputs. -/
  | noOutputs (function : Nat)
  /-- An instruction, or a function on entry, needs more values than the invocation owns. -/
  | tooFewValues (site : Site) (required available : Nat)
  /-- An instruction popped a value of another type than it works on. -/
  | wrongValueType (site : Site) (expected found : ValueType)
  /-- A function was entered on a value of another type than it declares. -/
  | wrongArgumentType (function parameter : Nat) (expected found : ValueType)
  /-- A function was left with more or fewer values than it declares. -/
  | wrongOutputCount (function expected found : Nat)
  /-- A function was left with a value of another type than it declares. -/
  | wrongOutputType (function output : Nat) (expected found : ValueType)
  /-- A slot was read before anything was stored in it. -/
  | unsetSlot (site : Site) (slot : Nat)
  /-- A call would make more invocations live than the limit allows. -/
  | callDepthExceeded (site : Site) (limit : Nat)
  /-- A push would make the stack larger than the limit allows. -/
  | stackOverflow (site : Site) (limit : Nat)
  /-- The function to start with does not exist. -/
  | noSuchEntry (index functions : Nat)
  deriving DecidableEq

namespace Fault

/-! ### Kinds of faults -/

/-- A fault without its details. -/
inductive Kind where
  | unassignedCode
  | missingOperand
  | wrongOperandKind
  | unexpectedOperand
  | badBranchTarget
  | badSlotIndex
  | badFunctionIndex
  | noOutputs
  | tooFewValues
  | wrongValueType
  | wrongArgumentType
  | wrongOutputCount
  | wrongOutputType
  | unsetSlot
  | callDepthExceeded
  | stackOverflow
  | noSuchEntry
  deriving DecidableEq

def Kind.all : List Kind :=
  [.unassignedCode, .missingOperand, .wrongOperandKind, .unexpectedOperand, .badBranchTarget,
    .badSlotIndex, .badFunctionIndex, .noOutputs, .tooFewValues, .wrongValueType,
    .wrongArgumentType, .wrongOutputCount, .wrongOutputType, .unsetSlot, .callDepthExceeded,
    .stackOverflow, .noSuchEntry]

theorem Kind.mem_all (kind : Kind) : kind ∈ all := by
  cases kind <;> decide

def kind : Fault → Kind
  | unassignedCode .. => .unassignedCode
  | missingOperand .. => .missingOperand
  | wrongOperandKind .. => .wrongOperandKind
  | unexpectedOperand .. => .unexpectedOperand
  | badBranchTarget .. => .badBranchTarget
  | badSlotIndex .. => .badSlotIndex
  | badFunctionIndex .. => .badFunctionIndex
  | noOutputs .. => .noOutputs
  | tooFewValues .. => .tooFewValues
  | wrongValueType .. => .wrongValueType
  | wrongArgumentType .. => .wrongArgumentType
  | wrongOutputCount .. => .wrongOutputCount
  | wrongOutputType .. => .wrongOutputType
  | unsetSlot .. => .unsetSlot
  | callDepthExceeded .. => .callDepthExceeded
  | stackOverflow .. => .stackOverflow
  | noSuchEntry .. => .noSuchEntry

/-! ### Phases -/

inductive Phase where
  | validation
  | execution
  deriving DecidableEq

def Kind.phase : Kind → Phase
  | .unassignedCode | .missingOperand | .wrongOperandKind | .unexpectedOperand
  | .badBranchTarget | .badSlotIndex | .badFunctionIndex | .noOutputs => .validation
  | .tooFewValues | .wrongValueType | .wrongArgumentType | .wrongOutputCount | .wrongOutputType
  | .unsetSlot | .callDepthExceeded | .stackOverflow | .noSuchEntry => .execution

def phase (fault : Fault) : Phase := fault.kind.phase

/-! ### Messages -/

def expectation (expected found : String) : String :=
  "expected " ++ expected ++ ", found " ++ found

def message : Fault → String
  | unassignedCode site code =>
    "invalid instruction code " ++ Hexadecimal.ofCode code ++ " " ++ site.text
  | missingOperand site opcode => opcode.mnemonic ++ " requires an operand " ++ site.text
  | wrongOperandKind site opcode expected =>
    opcode.mnemonic ++ " expects a " ++ expected.name ++ " operand " ++ site.text
  | unexpectedOperand site opcode => opcode.mnemonic ++ " takes no operand " ++ site.text
  | badBranchTarget site target length =>
    "invalid branch destination " ++ Decimal.ofInt64 target ++ " " ++ site.text ++
      " (" ++ Decimal.ofNat length ++ " instructions)"
  | badSlotIndex site index slots =>
    "invalid variable index " ++ Decimal.ofInt64 index ++ " " ++ site.text ++
      " (" ++ Decimal.ofNat slots ++ " slots)"
  | badFunctionIndex site index functions =>
    "invalid function index " ++ Decimal.ofInt64 index ++ " " ++ site.text ++
      " (" ++ Decimal.ofNat functions ++ " functions)"
  | noOutputs function => "function " ++ Decimal.ofNat function ++ " declares no return value"
  | tooFewValues site required available =>
    "too few elements on stack " ++ site.text ++ ": need " ++ Decimal.ofNat required ++
      ", have " ++ Decimal.ofNat available
  | wrongValueType site expected found =>
    "incorrect element type on stack " ++ site.text ++ ": " ++ expectation expected.name found.name
  | wrongArgumentType function parameter expected found =>
    "incorrect argument type for parameter " ++ Decimal.ofNat parameter ++ " of function " ++
      Decimal.ofNat function ++ ": " ++ expectation expected.name found.name
  | wrongOutputCount function expected found =>
    "incorrect number of return values from function " ++ Decimal.ofNat function ++ ": " ++
      expectation (Decimal.ofNat expected) (Decimal.ofNat found)
  | wrongOutputType function output expected found =>
    "incorrect type for return value " ++ Decimal.ofNat output ++ " of function " ++
      Decimal.ofNat function ++ ": " ++ expectation expected.name found.name
  | unsetSlot site slot =>
    "variable " ++ Decimal.ofNat slot ++ " read before being set " ++ site.text
  | callDepthExceeded site limit =>
    "call depth exceeded limit " ++ Decimal.ofNat limit ++ " " ++ site.text
  | stackOverflow site limit =>
    "stack overflow (limit " ++ Decimal.ofNat limit ++ ") " ++ site.text
  | noSuchEntry index functions =>
    "entry function " ++ Decimal.ofNat index ++ " does not exist (" ++
      Decimal.ofNat functions ++ " functions)"

end Fault

end StackMachine
