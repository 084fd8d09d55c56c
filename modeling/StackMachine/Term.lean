import StackMachine.Function

/-!
# Terms

A term is an expression over constants and the operators of the machine, typed by construction.
It has a value (`Term.eval`), and a listing in postfix order (`Term.ops`): first the operands from
left to right, then the operator.  `Term.definition` makes the listing a function without inputs.

`Term.need` is the room on the stack that the listing takes: a binary operator keeps its left
operand there while the right one is computed.
-/

namespace StackMachine

inductive Term : ValueType → Type where
  | constant {t : ValueType} (x : t.Carrier) : Term t
  | unary (o : UnaryOp) (a : Term o.type) : Term o.type
  | binary (o : BinaryOp) (a b : Term o.operandType) : Term o.resultType

namespace Term

def eval {t : ValueType} : Term t → t.Carrier
  | .constant x => x
  | .unary o a => o.apply a.eval
  | .binary o a b => o.apply a.eval b.eval

def ops {t : ValueType} : Term t → List Op
  | .constant x => [.push (.of _ x)]
  | .unary o a => a.ops ++ [.unary o]
  | .binary o a b => a.ops ++ b.ops ++ [.binary o]

/-- How many values the stack holds at most while the listing is carried out. -/
def need {t : ValueType} : Term t → Nat
  | .constant _ => 1
  | .unary _ a => a.need
  | .binary _ a b => max a.need (1 + b.need)

def definition {t : ValueType} (e : Term t) : Definition :=
  .ofOps e.ops [] [t] 0

end Term

end StackMachine
