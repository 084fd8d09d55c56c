import StackMachine.Execution.Recursive
import StackMachine.Main
import StackMachine.Proofs.Stack
import StackMachine.Term
import StackMachine.Proofs.Execution.Effect
import StackMachine.Proofs.Execution.Contract
import StackMachine.Proofs.Execution.Path
import StackMachine.Proofs.Execution.Recursion
import StackMachine.Proofs.Validation.InstructionSet
import StackMachine.Proofs.Validation.Acceptance
import StackMachine.Proofs.Validation.Encoding
import StackMachine.Proofs.Execution.Invariant
import StackMachine.Proofs.Execution.Locality
import StackMachine.Proofs.Validation.Diagnosis
import StackMachine.Proofs.Execution.Attribution
import StackMachine.Proofs.Execution.Limits
import StackMachine.Proofs.Execution.Result
import StackMachine.Proofs.Execution.History
import StackMachine.Proofs.Execution.Slots
import StackMachine.Proofs.Execution.Termination
import StackMachine.Proofs.Operator
import StackMachine.Proofs.Term
import StackMachine.Proofs.Validation.Violation
import StackMachine.Proofs.Execution.Lockstep
import StackMachine.Proofs.Execution.Payload
import StackMachine.Proofs.Extension
import StackMachine.Proofs.Execution.DeadCode
import StackMachine.Proofs.Arithmetic
import StackMachine.Proofs.CommandLine.RunOptions
import StackMachine.Proofs.Execution.Surplus
import StackMachine.Proofs.Catalog.Gcd
import StackMachine.Proofs.Catalog.Termination
import StackMachine.Proofs.CommandLine
import StackMachine.Proofs.Catalog.Recursive
import StackMachine.Proofs.CommandLine.Grammar
import StackMachine.Proofs.Fault.Message
import StackMachine.Proofs.Execution.Boundary
import StackMachine.Proofs.Listing
import StackMachine.Proofs.Rotation
