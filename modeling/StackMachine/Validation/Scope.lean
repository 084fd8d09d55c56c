import StackMachine.Fault
import StackMachine.Instruction
import StackMachine.Op

/-!
# Checking an instruction

The first half of the check needs nothing but the instruction: its code must be assigned, and its
operand must be there exactly if the opcode takes one, and of the right type.  The checks are made
in this order, and the first that fails is the one reported.  What passes is a `Form`.

The second half is about the index.  A branch must lead to an instruction of the same function other
than itself, a variable must be one of the function's slots, and a callee must be a function of the
program.  `Scope` holds the counts that decide this, and `Scope.resolve` makes the operation.
-/

namespace StackMachine

/-! ### The form of an instruction -/

structure Form where
  opcode : Opcode
  operand : Option Value
  deriving DecidableEq

/-- The form of an instruction at a place in the code, or what is wrong with it. -/
def Instruction.form (site : Site) (i : Instruction) : Except Fault Form :=
  match i.opcode? with
  | none => .error (.unassignedCode site i.code)
  | some opcode =>
    match opcode.operandKind, i.operand with
    | .none, none => .ok ⟨opcode, none⟩
    | .none, some _ => .error (.unexpectedOperand site opcode)
    | .literal _, none => .error (.missingOperand site opcode)
    | .literal type, some v =>
      if v.type = type then .ok ⟨opcode, some v⟩
      else .error (.wrongOperandKind site opcode (.literal type))

/-! ### Indices in scope -/

/-- What the indices in the code of one function are checked against. -/
structure Scope where
  /-- The function whose code it is. -/
  function : Nat
  /-- How many instructions the function has. -/
  length : Nat
  /-- How many slots the function has. -/
  slots : Nat
  /-- How many functions the program has. -/
  functions : Nat
  deriving DecidableEq

def indexBelow? (bound : Nat) (i : Int64) : Option Nat :=
  if 0 ≤ i.toInt ∧ i.toInt < bound then some i.toInt.toNat else none

def Opcode.bareOp? : Opcode → Option Op
  | .exit => some .exit
  | .unary o => some (.unary o)
  | .binary o => some (.binary o)
  | .load | .store | .call | .branch | .branchIf _ | .push _ => none

namespace Scope

/-! ### The three kinds of index -/

/-- A branch may lead anywhere in the function except to itself. -/
def branchTarget (s : Scope) (position : Nat) (target : Int64) : Except Fault Nat :=
  match indexBelow? s.length target with
  | some t =>
    if t = position then .error (.badBranchTarget ⟨s.function, position⟩ target s.length)
    else .ok t
  | none => .error (.badBranchTarget ⟨s.function, position⟩ target s.length)

def slot (s : Scope) (position : Nat) (index : Int64) : Except Fault Nat :=
  match indexBelow? s.slots index with
  | some i => .ok i
  | none => .error (.badSlotIndex ⟨s.function, position⟩ index s.slots)

def callee (s : Scope) (position : Nat) (index : Int64) : Except Fault Nat :=
  match indexBelow? s.functions index with
  | some i => .ok i
  | none => .error (.badFunctionIndex ⟨s.function, position⟩ index s.functions)

/-! ### Decoding -/

/-- The operation of a form.  An operand that is no index is a literal to push, whatever the
opcode. -/
def resolve (s : Scope) (position : Nat) : Form → Except Fault Op
  | ⟨opcode, some (.integer i)⟩ =>
    if opcode.isBranch then
      (s.branchTarget position i).map fun target =>
        match opcode with
        | .branchIf flag => .branchIf flag target
        | _ => .branch target
    else if opcode.isVariableAccess then
      (s.slot position i).map fun slot =>
        match opcode with
        | .store => .store slot
        | _ => .load slot
    else if opcode = .call then (s.callee position i).map .call
    else .ok (.push (.integer i))
  | ⟨_, some (.boolean b)⟩ => .ok (.push (.boolean b))
  | ⟨opcode, none⟩ =>
    match opcode.bareOp? with
    | some op => .ok op
    | none => .error (.missingOperand ⟨s.function, position⟩ opcode)

/-- Check the instruction at a position: its form first, then its index. -/
def check (s : Scope) (position : Nat) (i : Instruction) : Except Fault Op := do
  let form ← i.form ⟨s.function, position⟩
  s.resolve position form

end Scope

end StackMachine
