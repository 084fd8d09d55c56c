import StackMachine.Execution.Contract
import StackMachine.Execution.Effect

/-!
# Execution by recursion

The same executions, told the other way: the meaning of an invocation is a stack, and a call
evaluates the callee on the same stack before the caller goes on.  There are no suspended frames
here.  What they are needed for elsewhere, the number of live invocations, is an argument.

An evaluation that does not end within its fuel gives `none`.
-/

namespace StackMachine

/-- The stack that an invocation leaves behind, when it is one of `live` invocations. -/
def evaluate (program : Program) (limits : Limits) :
    (fuel live : Nat) → Frame → Stack Value → Option (Except Failure (Stack Value))
  | 0, _, _, _ => none
  | fuel + 1, live, frame, stack =>
    match program[frame.function]? with
    | none => some (.error .stuck)
    | some routine =>
      let leave := some ((routine.leave frame stack).map fun _ => stack)
      match routine.ops[frame.position]? with
      | none => leave
      | some op =>
        match perform limits frame.site frame.advance stack op with
        | .error failure => some (.error failure)
        | .ok (.proceed frame stack) => evaluate program limits fuel live frame stack
        | .ok .exit => leave
        | .ok (.call callee) =>
          if limits.callDepth < live + 1 then
            some (.error (.fault (.callDepthExceeded frame.site limits.callDepth)))
          else
            match program[callee]? with
            | none => some (.error .stuck)
            | some target =>
              match target.activate callee frame.base stack with
              | .error failure => some (.error failure)
              | .ok inner =>
                match evaluate program limits fuel (live + 1) inner stack with
                | some (.ok stack) => evaluate program limits fuel live frame.advance stack
                | unfinished => unfinished

/-- Execute a function on arguments, by recursion.  It is the first live invocation, and all
values on the stack are its own. -/
def executeByRecursion (program : Program) (limits : Limits) (fuel entry : Nat)
    (arguments : List Value) : Option Outcome :=
  match program[entry]? with
  | none => some (.failed (.fault (.noSuchEntry entry program.size)))
  | some routine =>
    if limits.stackDepth < arguments.length then
      some (.failed (.fault (.stackOverflow ⟨entry, 0⟩ limits.stackDepth)))
    else if limits.callDepth < 1 then
      some (.failed (.fault (.callDepthExceeded ⟨entry, 0⟩ limits.callDepth)))
    else
      match routine.activate entry 0 (.ofList arguments) with
      | .error failure => some (.failed failure)
      | .ok frame =>
        (evaluate program limits fuel 1 { frame with base := 0 } (.ofList arguments)).map fun
          | .ok stack => .returned stack.toList
          | .error failure => .failed failure

end StackMachine
