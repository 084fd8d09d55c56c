import StackMachine.Operator
import StackMachine.Text.Numeral

/-!
# Opcodes

An opcode says what an instruction does, without the operand that says to what.  Every opcode has
a 16-bit code and a mnemonic.  Codes are grouped by the high byte (`0x00` for variables, functions
and branches, `0x01` for Booleans, `0x05` for integers), and the groups have gaps: a code need not
belong to any opcode, so `Opcode.ofCode?` may find none.

* `Opcode.mem_all`: the list `Opcode.all` leaves none out.
* `Opcode.ofCode?_code`, `Opcode.code_of_ofCode?`: decoding a code inverts `Opcode.code`.
-/

namespace StackMachine

/-! ### Operand kinds -/

/-- What an opcode wants beside it: nothing, or one literal of a type. -/
inductive OperandKind where
  | none
  | literal (type : ValueType)
  deriving DecidableEq

def OperandKind.name : OperandKind → String
  | .none => "None"
  | .literal type => type.name

/-! ### Opcodes -/

inductive Opcode where
  /-- Push the value of a slot. -/
  | load
  /-- Pop a value into a slot. -/
  | store
  /-- Invoke a function. -/
  | call
  /-- Leave the running function. -/
  | exit
  /-- Continue at another instruction. -/
  | branch
  /-- Pop a Boolean and continue elsewhere if it is `flag`. -/
  | branchIf (flag : Bool)
  /-- Push a literal. -/
  | push (type : ValueType)
  | unary (o : UnaryOp)
  | binary (o : BinaryOp)
  deriving DecidableEq

namespace Opcode

/-- Every opcode, by increasing code. -/
def all : List Opcode :=
  [.load, .store, .call, .exit, .branch, .branchIf true, .branchIf false,
    .push .boolean, .binary (.boolean .equal), .binary (.boolean .notEqual),
    .binary (.boolean .and), .binary (.boolean .or), .unary .booleanNot,
    .push .integer, .binary (.compare .equal), .binary (.compare .notEqual),
    .binary (.integer .add), .binary (.integer .subtract), .binary (.integer .multiply),
    .binary (.integer .divide), .binary (.integer .modulus), .binary (.integer .shiftLeft),
    .binary (.integer .shiftRightArithmetic), .binary (.integer .shiftRightLogical),
    .binary (.integer .rotateLeft), .binary (.integer .rotateRight),
    .binary (.integer .bitwiseAnd), .binary (.integer .bitwiseOr), .unary .bitwiseNot,
    .binary (.integer .bitwiseXor), .binary (.compare .greaterThan), .binary (.compare .lessThan),
    .binary (.compare .greaterEqual), .binary (.compare .lessEqual)]

def code : Opcode → UInt16
  | .load => 0x0010
  | .store => 0x0011
  | .call => 0x0020
  | .exit => 0x0021
  | .branch => 0x0030
  | .branchIf true => 0x0031
  | .branchIf false => 0x0032
  | .push .boolean => 0x0100
  | .binary (.boolean .equal) => 0x0101
  | .binary (.boolean .notEqual) => 0x0102
  | .binary (.boolean .and) => 0x0103
  | .binary (.boolean .or) => 0x0107
  | .unary .booleanNot => 0x0108
  | .push .integer => 0x0500
  | .binary (.compare .equal) => 0x0501
  | .binary (.compare .notEqual) => 0x0502
  | .binary (.integer .add) => 0x0503
  | .binary (.integer .subtract) => 0x0504
  | .binary (.integer .multiply) => 0x0505
  | .binary (.integer .divide) => 0x0506
  | .binary (.integer .modulus) => 0x0507
  | .binary (.integer .shiftLeft) => 0x0508
  | .binary (.integer .shiftRightArithmetic) => 0x0509
  | .binary (.integer .shiftRightLogical) => 0x050A
  | .binary (.integer .rotateLeft) => 0x050B
  | .binary (.integer .rotateRight) => 0x050C
  | .binary (.integer .bitwiseAnd) => 0x050D
  | .binary (.integer .bitwiseOr) => 0x050E
  | .unary .bitwiseNot => 0x050F
  | .binary (.integer .bitwiseXor) => 0x0510
  | .binary (.compare .greaterThan) => 0x0511
  | .binary (.compare .lessThan) => 0x0512
  | .binary (.compare .greaterEqual) => 0x0513
  | .binary (.compare .lessEqual) => 0x0514

def mnemonic : Opcode → String
  | .load => "VariableToStack"
  | .store => "StackToVariable"
  | .call => "CallFunction"
  | .exit => "ExitFunction"
  | .branch => "Branch"
  | .branchIf true => "BranchTrue"
  | .branchIf false => "BranchFalse"
  | .push .boolean => "BooleanConstantToStack"
  | .push .integer => "IntegerConstantToStack"
  | .unary .booleanNot => "BooleanNot"
  | .unary .bitwiseNot => "IntegerBitwiseNot"
  | .binary (.boolean o) => "Boolean" ++ o.name
  | .binary (.integer o) => "Integer" ++ o.name
  | .binary (.compare c) => "Integer" ++ c.name

def ofCode? (code : UInt16) : Option Opcode :=
  all.find? (·.code = code)

def ofMnemonic? (name : String) : Option Opcode :=
  all.find? (·.mnemonic = name)

def unassignedMessage (code : UInt16) : String :=
  "unknown instruction code " ++ Hexadecimal.ofCode code

/-! ### Families -/

def operandKind : Opcode → OperandKind
  | .load | .store | .call | .branch | .branchIf _ => .literal .integer
  | .push type => .literal type
  | .exit | .unary _ | .binary _ => .none

def isBranch : Opcode → Bool
  | .branch | .branchIf _ => true
  | _ => false

def isVariableAccess : Opcode → Bool
  | .load | .store => true
  | _ => false

/-! ### The code table -/

theorem mem_all (o : Opcode) : o ∈ all := by
  match o with
  | .load | .store | .call | .exit | .branch => decide
  | .branchIf b => cases b <;> decide
  | .push t => cases t <;> decide
  | .unary o => cases o <;> decide
  | .binary (.boolean o) => cases o <;> decide
  | .binary (.integer o) => cases o <;> decide
  | .binary (.compare c) => cases c <;> decide

theorem code_of_ofCode? {code : UInt16} {o : Opcode} (h : ofCode? code = some o) :
    o.code = code := by
  simpa using List.find?_some h

@[simp] theorem ofCode?_code (o : Opcode) : ofCode? o.code = some o := by
  have h : ∀ o ∈ all, ofCode? o.code = some o := by decide
  exact h o (mem_all o)

end Opcode

end StackMachine
