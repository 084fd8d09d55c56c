import StackMachine.Fault

/-!
# Where a fault lies

Every fault except one names the function it lies in, some of them together with the position of an
instruction.  The exception is an entry that does not exist: it lies nowhere.

A check that only reports faults of one function is said to keep to it (`KeepsTo`), and checks in
sequence keep to a function if each of them does.
-/

namespace StackMachine

namespace Fault

def function? : Fault → Option Nat
  | unassignedCode site _ | missingOperand site _ | wrongOperandKind site _ _
  | unexpectedOperand site _ | badBranchTarget site _ _ | badSlotIndex site _ _
  | badFunctionIndex site _ _ | tooFewValues site _ _ | wrongValueType site _ _
  | unsetSlot site _ | callDepthExceeded site _ | stackOverflow site _ => some site.function
  | noOutputs function | wrongArgumentType function _ _ _ | wrongOutputCount function _ _
  | wrongOutputType function _ _ _ => some function
  | noSuchEntry _ _ => none

def site? : Fault → Option Site
  | unassignedCode site _ | missingOperand site _ | wrongOperandKind site _ _
  | unexpectedOperand site _ | badBranchTarget site _ _ | badSlotIndex site _ _
  | badFunctionIndex site _ _ | tooFewValues site _ _ | wrongValueType site _ _
  | unsetSlot site _ | callDepthExceeded site _ | stackOverflow site _ => some site
  | noOutputs _ | wrongArgumentType _ _ _ _ | wrongOutputCount _ _ _ | wrongOutputType _ _ _ _
  | noSuchEntry _ _ => none

/-- A fault lies in the function of the place that it names. -/
theorem function?_of_site? {fault : Fault} {site : Site} (h : fault.site? = some site) :
    fault.function? = some site.function := by
  cases fault <;> cases h <;> rfl

end Fault

/-- Whatever fault a check reports lies in the function. -/
def KeepsTo {α : Type} (function : Nat) (x : Except Fault α) : Prop :=
  ∀ fault, x = .error fault → fault.function? = some function

namespace KeepsTo

variable {α β : Type} {function : Nat}

theorem ok (a : α) : KeepsTo function (.ok a : Except Fault α) := by
  intro fault h
  cases h

theorem error {fault : Fault} (h : fault.function? = some function) :
    KeepsTo function (.error fault : Except Fault α) := by
  intro fault' h'
  cases h'
  exact h

theorem map {x : Except Fault α} (h : KeepsTo function x) (f : α → β) :
    KeepsTo function (x.map f) := by
  cases x with
  | ok a => exact ok (f a)
  | error fault => exact error (h fault rfl)

theorem bind {x : Except Fault α} (h : KeepsTo function x) {f : α → Except Fault β}
    (hf : ∀ a, KeepsTo function (f a)) : KeepsTo function (x >>= f) := by
  cases x with
  | ok a => exact hf a
  | error fault => exact error (h fault rfl)

end KeepsTo

end StackMachine
