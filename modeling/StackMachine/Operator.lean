import StackMachine.Value

/-!
# Operators

The machine has two unary and twenty-three binary operators.  Each has fixed operand and result
types, so `UnaryOp.apply` and `BinaryOp.apply` are functions on payloads of those types and cannot
fail.

Integers are 64-bit words: addition, subtraction and multiplication wrap around, division and
remainder by zero give zero, and a shift or a rotation goes by the low six bits of its second
operand, so that every distance lies between `0` and `63`.

In a binary operator the first operand is the one that was pushed first.
-/

namespace StackMachine

/-! ### Boolean operators -/

inductive BooleanOp where
  | equal
  | notEqual
  | and
  | or
  deriving DecidableEq

namespace BooleanOp

def all : List BooleanOp := [.equal, .notEqual, .and, .or]

def name : BooleanOp → String
  | .equal => "Equal"
  | .notEqual => "NotEqual"
  | .and => "And"
  | .or => "Or"

def apply : BooleanOp → Bool → Bool → Bool
  | .equal, a, b => a == b
  | .notEqual, a, b => a != b
  | .and, a, b => a && b
  | .or, a, b => a || b

end BooleanOp

/-! ### Integer operators -/

inductive IntegerOp where
  | add
  | subtract
  | multiply
  | divide
  | modulus
  | shiftLeft
  | shiftRightArithmetic
  | shiftRightLogical
  | rotateLeft
  | rotateRight
  | bitwiseAnd
  | bitwiseOr
  | bitwiseXor
  deriving DecidableEq

namespace IntegerOp

def all : List IntegerOp :=
  [.add, .subtract, .multiply, .divide, .modulus, .shiftLeft, .shiftRightArithmetic,
    .shiftRightLogical, .rotateLeft, .rotateRight, .bitwiseAnd, .bitwiseOr, .bitwiseXor]

def name : IntegerOp → String
  | .add => "Add"
  | .subtract => "Subtract"
  | .multiply => "Multiply"
  | .divide => "Divide"
  | .modulus => "Modulus"
  | .shiftLeft => "ShiftLeft"
  | .shiftRightArithmetic => "ShiftRightArithmetic"
  | .shiftRightLogical => "ShiftRightLogical"
  | .rotateLeft => "RotateLeft"
  | .rotateRight => "RotateRight"
  | .bitwiseAnd => "BitwiseAnd"
  | .bitwiseOr => "BitwiseOr"
  | .bitwiseXor => "BitwiseXor"

/-- How far a shift or a rotation by `b` goes: the low six bits of the word. -/
def distance (b : Int64) : Nat :=
  b.toBitVec.toNat % 64

def apply : IntegerOp → Int64 → Int64 → Int64
  | .add, a, b => a + b
  | .subtract, a, b => a - b
  | .multiply, a, b => a * b
  | .divide, a, b => if b = 0 then 0 else a / b
  | .modulus, a, b => if b = 0 then 0 else a % b
  | .shiftLeft, a, b => .ofBitVec (a.toBitVec <<< distance b)
  | .shiftRightArithmetic, a, b => .ofBitVec (a.toBitVec.sshiftRight (distance b))
  | .shiftRightLogical, a, b => .ofBitVec (a.toBitVec >>> distance b)
  | .rotateLeft, a, b => .ofBitVec (a.toBitVec.rotateLeft (distance b))
  | .rotateRight, a, b => .ofBitVec (a.toBitVec.rotateRight (distance b))
  | .bitwiseAnd, a, b => a &&& b
  | .bitwiseOr, a, b => a ||| b
  | .bitwiseXor, a, b => a ^^^ b

end IntegerOp

/-! ### Comparisons -/

inductive Comparison where
  | equal
  | notEqual
  | greaterThan
  | lessThan
  | greaterEqual
  | lessEqual
  deriving DecidableEq

namespace Comparison

def all : List Comparison :=
  [.equal, .notEqual, .greaterThan, .lessThan, .greaterEqual, .lessEqual]

def name : Comparison → String
  | .equal => "Equal"
  | .notEqual => "NotEqual"
  | .greaterThan => "GreaterThan"
  | .lessThan => "LessThan"
  | .greaterEqual => "GreaterEqual"
  | .lessEqual => "LessEqual"

def apply : Comparison → Int64 → Int64 → Bool
  | .equal, a, b => a = b
  | .notEqual, a, b => a ≠ b
  | .greaterThan, a, b => b < a
  | .lessThan, a, b => a < b
  | .greaterEqual, a, b => b ≤ a
  | .lessEqual, a, b => a ≤ b

end Comparison

/-! ### All operators, by number of operands -/

/-- Operators on one value.  The result has the type of the operand. -/
inductive UnaryOp where
  | booleanNot
  | bitwiseNot
  deriving DecidableEq

namespace UnaryOp

abbrev type : UnaryOp → ValueType
  | .booleanNot => .boolean
  | .bitwiseNot => .integer

def apply : (o : UnaryOp) → o.type.Carrier → o.type.Carrier
  | .booleanNot, a => !a
  | .bitwiseNot, a => ~~~a

end UnaryOp

inductive BinaryOp where
  | boolean (o : BooleanOp)
  | integer (o : IntegerOp)
  | compare (c : Comparison)
  deriving DecidableEq

namespace BinaryOp

abbrev operandType : BinaryOp → ValueType
  | .boolean _ => .boolean
  | .integer _ => .integer
  | .compare _ => .integer

abbrev resultType : BinaryOp → ValueType
  | .boolean _ => .boolean
  | .integer _ => .integer
  | .compare _ => .boolean

def apply : (o : BinaryOp) → o.operandType.Carrier → o.operandType.Carrier → o.resultType.Carrier
  | .boolean o, a, b => o.apply a b
  | .integer o, a, b => o.apply a b
  | .compare c, a, b => c.apply a b

end BinaryOp

end StackMachine
