import StackMachine.Execution.State

/-!
# What an operation does

`perform` carries out one operation inside an invocation: it moves values between the stack, the
slots and the operators, and sets the position.  Calls and exits concern more than one invocation,
so they are only passed on.

Every pop and push is checked.  A pop may not go below the base of the invocation, and an operator
pops its second operand first, so that is the one whose type is looked at first.
-/

namespace StackMachine

/-! ### Checked access to the stack -/

def popAbove (site : Site) (base : Nat) (stack : Stack Value) :
    Except Failure (Value × Stack Value) :=
  match stack.pop? with
  | some (value, rest) =>
    if base < stack.size then .ok (value, rest) else .error (.fault (.tooFewValues site 1 0))
  | none => .error (.fault (.tooFewValues site 1 0))

def popTyped (t : ValueType) (site : Site) (base : Nat) (stack : Stack Value) :
    Except Failure (t.Carrier × Stack Value) := do
  let (value, rest) ← popAbove site base stack
  match value.as? t with
  | some x => return (x, rest)
  | none => throw (.fault (.wrongValueType site t value.type))

/-- Push a value if the stack holds fewer than `limit`. -/
def pushBelow (limit : Nat) (site : Site) (value : Value) (stack : Stack Value) :
    Except Failure (Stack Value) :=
  if stack.size < limit then .ok (stack.push value)
  else .error (.fault (.stackOverflow site limit))

/-! ### Operations -/

inductive Flow where
  /-- The invocation goes on. -/
  | proceed (frame : Frame) (stack : Stack Value)
  /-- It waits for another function. -/
  | call (callee : Nat)
  /-- It is over. -/
  | exit

/-- Carry out the operation at `site`, with `frame` already moved past it. -/
def perform (limits : Limits) (site : Site) (frame : Frame) (stack : Stack Value) :
    Op → Except Failure Flow
  | .load slot =>
    match frame.slots[slot]? with
    | some (some value) => do
      let stack ← pushBelow limits.stackDepth site value stack
      return .proceed frame stack
    | some none => .error (.fault (.unsetSlot site slot))
    | none => .error .stuck
  | .store slot => do
    let (value, stack) ← popAbove site frame.base stack
    if h : slot < frame.slots.size then
      return .proceed { frame with slots := frame.slots.set slot (some value) h } stack
    else throw .stuck
  | .call callee => .ok (.call callee)
  | .exit => .ok .exit
  | .branch target => .ok (.proceed (frame.jump target) stack)
  | .branchIf flag target => do
    let (b, stack) ← popTyped .boolean site frame.base stack
    return .proceed (if b = flag then frame.jump target else frame) stack
  | .push value => do
    let stack ← pushBelow limits.stackDepth site value stack
    return .proceed frame stack
  | .unary o => do
    let (a, stack) ← popTyped o.type site frame.base stack
    let stack ← pushBelow limits.stackDepth site (.of o.type (o.apply a)) stack
    return .proceed frame stack
  | .binary o => do
    let (b, stack) ← popTyped o.operandType site frame.base stack
    let (a, stack) ← popTyped o.operandType site frame.base stack
    let stack ← pushBelow limits.stackDepth site (.of o.resultType (o.apply a b)) stack
    return .proceed frame stack

end StackMachine
