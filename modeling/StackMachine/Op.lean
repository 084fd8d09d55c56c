import StackMachine.Instruction

/-!
# Operations

An operation is a decoded instruction: opcode and operand in one, with indices as natural numbers.
Validated code is made of operations, and the engine runs nothing else.

`Op.encode` goes back to the raw instruction.  It is how programs are written down by hand.
-/

namespace StackMachine

inductive Op where
  | load (slot : Nat)
  | store (slot : Nat)
  | call (callee : Nat)
  | exit
  | branch (target : Nat)
  | branchIf (flag : Bool) (target : Nat)
  | push (value : Value)
  | unary (o : UnaryOp)
  | binary (o : BinaryOp)
  deriving DecidableEq

namespace Op

def opcode : Op → Opcode
  | .load _ => .load
  | .store _ => .store
  | .call _ => .call
  | .exit => .exit
  | .branch _ => .branch
  | .branchIf flag _ => .branchIf flag
  | .push value => .push value.type
  | .unary o => .unary o
  | .binary o => .binary o

/-- The index an operation refers to: a slot, a function, or an instruction. -/
def index? : Op → Option Nat
  | .load slot | .store slot => some slot
  | .call callee => some callee
  | .branch target | .branchIf _ target => some target
  | .exit | .push _ | .unary _ | .binary _ => none

def operand : Op → Option Value
  | .push value => some value
  | op => op.index?.map (fun i => .integer (.ofNat i))

/-- The raw instruction of an operation.  It decodes to the operation again as long as the index
fits into a signed 64-bit word. -/
def encode (op : Op) : Instruction :=
  op.opcode.withOperand op.operand

def text : Op → String
  | .load slot => "LoadVariable(" ++ Decimal.ofNat slot ++ ")"
  | .store slot => "StoreVariable(" ++ Decimal.ofNat slot ++ ")"
  | .call callee => "Call(" ++ Decimal.ofNat callee ++ ")"
  | .exit => "Exit"
  | .branch target => "Branch(" ++ Decimal.ofNat target ++ ")"
  | .branchIf true target => "BranchTrue(" ++ Decimal.ofNat target ++ ")"
  | .branchIf false target => "BranchFalse(" ++ Decimal.ofNat target ++ ")"
  | .push (.boolean b) => "PushBoolean(" ++ (Value.boolean b).text ++ ")"
  | .push (.integer i) => "PushInteger(" ++ Decimal.ofInt64 i ++ ")"
  | .unary .booleanNot => "BooleanNot"
  | .unary .bitwiseNot => "IntegerBitwiseNot"
  | .binary (.boolean o) => "Boolean(" ++ o.name ++ ")"
  | .binary (.integer o) => "Integer(" ++ o.name ++ ")"
  | .binary (.compare c) => "Compare(" ++ c.name ++ ")"

end Op

end StackMachine
