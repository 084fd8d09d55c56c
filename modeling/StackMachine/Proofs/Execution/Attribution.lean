import StackMachine.Proofs.Execution.Fault
import StackMachine.Proofs.Execution.Invariant
import StackMachine.Proofs.Fault

/-!
# Faults point at their cause

A fault of an execution carries a place in the code and the numbers or types that disagree.  Here
this is checked against the program: the operation at that place can have the fault, and the
function has the input, the output or the count that the fault speaks of (`Fault.Attributed`).

Faults of operations, of the two contracts and of the limits are attributed one by one
(`Fails.attributed`, `Routine.enter_attributed`, `Routine.leave_attributed`); a turn has no others,
so an execution has none (`Machine.faults_are_attributed`).  Only one case needs more than the
turn in which it arises: an operator cannot overflow the stack, since it pops before it pushes and
the stack kept the limit before.
-/

namespace StackMachine

/-! ### What a fault says -/

def Site.op? (program : Program) (site : Site) : Option Op :=
  program[site.function]?.bind fun routine => routine.ops[site.position]?

namespace Op

def pops : Op → Bool
  | .store _ | .branchIf _ _ | .unary _ | .binary _ => true
  | .load _ | .call _ | .exit | .branch _ | .push _ => false

/-- The type of the values that an operation pops.  A store takes any. -/
def poppedType? : Op → Option ValueType
  | .branchIf _ _ => some .boolean
  | .unary o => some o.type
  | .binary o => some o.operandType
  | .load _ | .store _ | .call _ | .exit | .branch _ | .push _ => none

theorem pops_of_poppedType? {op : Op} {t : ValueType} (h : op.poppedType? = some t) :
    op.pops := by
  cases op with
  | branchIf | unary | binary => rfl
  | load | store | call | exit | branch | push => cases h

end Op

/-- What a fault says is so, for an execution of the function `entry` on arguments. -/
def Fault.Attributed (program : Program) (limits : Limits) (entry : Nat) (arguments : List Value) :
    Fault → Prop
  | .tooFewValues site required available =>
    available < required ∧
      ((∃ op, site.op? program = some op ∧ op.pops ∧ required = 1 ∧ available = 0) ∨
        ∃ routine, program[site.function]? = some routine ∧ site.position = 0 ∧
          required = routine.inputs.length)
  | .wrongValueType site expected found =>
    (∃ op, site.op? program = some op ∧ op.poppedType? = some expected) ∧ found ≠ expected
  | .wrongArgumentType function parameter expected found =>
    (∃ routine, program[function]? = some routine ∧
      routine.inputs[parameter]? = some expected) ∧ found ≠ expected
  | .wrongOutputCount function expected found =>
    (∃ routine, program[function]? = some routine ∧ expected = routine.outputs.length) ∧
      found ≠ expected
  | .wrongOutputType function output expected found =>
    (∃ routine, program[function]? = some routine ∧
      routine.outputs[output]? = some expected) ∧ found ≠ expected
  | .unsetSlot site slot => site.op? program = some (.load slot)
  | .callDepthExceeded site limit =>
    limit = limits.callDepth ∧
      ((∃ callee, site.op? program = some (.call callee)) ∨ limit = 0 ∧ site = ⟨entry, 0⟩)
  | .stackOverflow site limit =>
    limit = limits.stackDepth ∧
      ((∃ slot, site.op? program = some (.load slot)) ∨
        (∃ value, site.op? program = some (.push value)) ∨
        site = ⟨entry, 0⟩ ∧ limit < arguments.length)
  | _ => False

variable {program : Program} {limits : Limits} {entry : Nat} {arguments : List Value}
  {fault : Fault}

theorem Site.op?_eq_some {site : Site} {routine : Routine} {op : Op}
    (hr : program[site.function]? = some routine) (hop : routine.ops[site.position]? = some op) :
    site.op? program = some op :=
  Option.bind_eq_some_iff.mpr ⟨routine, hr, hop⟩

theorem Site.function_lt {site : Site} {op : Op} (h : site.op? program = some op) :
    site.function < program.size := by
  obtain ⟨routine, hr, -⟩ := Option.bind_eq_some_iff.mp h
  exact (Array.getElem?_eq_some_iff.mp hr).1

namespace Fault.Attributed

/-- Only faults of an execution are attributed. -/
theorem phase_eq (h : fault.Attributed program limits entry arguments) :
    fault.phase = .execution := by
  cases fault with
  | tooFewValues | wrongValueType | wrongArgumentType | wrongOutputCount | wrongOutputType
  | unsetSlot | callDepthExceeded | stackOverflow | noSuchEntry => rfl
  | unassignedCode | missingOperand | wrongOperandKind | unexpectedOperand | badBranchTarget
  | badSlotIndex | badFunctionIndex | noOutputs => exact h.elim

/-- They lie in a function of the program. -/
theorem function_lt (h : fault.Attributed program limits entry arguments)
    (hentry : entry < program.size) :
    ∃ function < program.size, fault.function? = some function := by
  cases fault with
  | tooFewValues site =>
    obtain ⟨-, ⟨op, hop, -⟩ | ⟨routine, hr, -⟩⟩ := h
    · exact ⟨_, Site.function_lt hop, rfl⟩
    · exact ⟨_, (Array.getElem?_eq_some_iff.mp hr).1, rfl⟩
  | wrongValueType site =>
    obtain ⟨⟨op, hop, -⟩, -⟩ := h
    exact ⟨_, Site.function_lt hop, rfl⟩
  | wrongArgumentType function | wrongOutputCount function | wrongOutputType function =>
    obtain ⟨⟨routine, hr, -⟩, -⟩ := h
    exact ⟨_, (Array.getElem?_eq_some_iff.mp hr).1, rfl⟩
  | unsetSlot site => exact ⟨_, Site.function_lt h, rfl⟩
  | callDepthExceeded site =>
    obtain ⟨-, ⟨callee, hop⟩ | ⟨-, rfl⟩⟩ := h
    · exact ⟨_, Site.function_lt hop, rfl⟩
    · exact ⟨entry, hentry, rfl⟩
  | stackOverflow site =>
    obtain ⟨-, ⟨slot, hop⟩ | ⟨value, hop⟩ | ⟨rfl, -⟩⟩ := h
    · exact ⟨_, Site.function_lt hop, rfl⟩
    · exact ⟨_, Site.function_lt hop, rfl⟩
    · exact ⟨entry, hentry, rfl⟩
  | unassignedCode | missingOperand | wrongOperandKind | unexpectedOperand | badBranchTarget
  | badSlotIndex | badFunctionIndex | noOutputs | noSuchEntry => exact h.elim

end Fault.Attributed

/-! ### Operations -/

section Operations

variable {site : Site} {frame : Frame} {stack : Stack Value} {op : Op}

theorem PopFails.attributed {t : ValueType} {base : Nat} (h : PopFails t site base stack fault)
    (hop : site.op? program = some op) (ht : op.poppedType? = some t) :
    fault.Attributed program limits entry arguments := by
  cases h with
  | tooFew => exact ⟨Nat.zero_lt_one, .inl ⟨op, hop, Op.pops_of_poppedType? ht, rfl, rfl⟩⟩
  | wrongType _ hne => exact ⟨⟨op, hop, ht⟩, hne⟩

theorem Fails.attributed (h : Fails limits site frame op stack fault)
    (hop : site.op? program = some op) (hsize : stack.size ≤ limits.stackDepth) :
    fault.Attributed program limits entry arguments := by
  cases h with
  | loadUnset => exact hop
  | loadFull => exact ⟨rfl, .inl ⟨_, hop⟩⟩
  | store => exact ⟨Nat.zero_lt_one, .inl ⟨_, hop, rfl, rfl, rfl⟩⟩
  | pushFull => exact ⟨rfl, .inr (.inl ⟨_, hop⟩)⟩
  | branchIf pop | unary pop | binarySecond pop | binaryFirst _ pop => exact pop.attributed hop rfl
  | unaryFull _ full =>
    -- the stack was larger before the operator popped
    rw [Stack.size_push] at hsize
    omega
  | binaryFull _ full =>
    rw [Stack.size_push, Stack.size_push] at hsize
    omega

end Operations

/-! ### Contracts -/

namespace Routine

variable {r : Routine} {stack : Stack Value}

theorem enter_attributed {function floor : Nat} (hr : program[function]? = some r)
    (h : r.enter function floor stack = .error (.fault fault)) :
    fault.Attributed program limits entry arguments := by
  obtain ⟨-, ⟨hfew, rfl⟩ | ⟨-, m, hfirst, rfl⟩⟩ := enter_eq_fault_iff.mp h
  · exact ⟨hfew, .inr ⟨r, hr, rfl, rfl⟩⟩
  · exact ⟨⟨r, hr, hfirst.expected⟩, hfirst.ne⟩

theorem leave_attributed {frame : Frame} (hr : program[frame.function]? = some r)
    (h : r.leave frame stack = .error (.fault fault)) :
    fault.Attributed program limits entry arguments := by
  obtain ⟨-, ⟨hcount, rfl⟩ | ⟨-, m, hfirst, rfl⟩⟩ := leave_eq_fault_iff.mp h
  · exact ⟨⟨r, hr, rfl⟩, hcount⟩
  · exact ⟨⟨r, hr, hfirst.expected⟩, hfirst.ne⟩

end Routine

/-! ### Executions -/

theorem TurnFails.attributed {live : Nat} {frame : Frame} {stack : Stack Value}
    (h : TurnFails program limits live frame stack fault)
    (hsize : stack.size ≤ limits.stackDepth) :
    fault.Attributed program limits entry arguments := by
  cases h with
  | operation hr hop hfails => exact hfails.attributed (Site.op?_eq_some hr hop) hsize
  | tooDeep hr hop => exact ⟨rfl, .inl ⟨_, Site.op?_eq_some hr hop⟩⟩
  | enter _ _ _ htarget he => exact Routine.enter_attributed htarget he
  | leave hr _ hl => exact Routine.leave_attributed hr hl

theorem StartFails.attributed (h : StartFails program limits entry arguments fault)
    (hentry : entry < program.size) : fault.Attributed program limits entry arguments := by
  cases h with
  | noEntry hnone =>
    have hle := Array.getElem?_eq_none_iff.mp hnone
    omega
  | tooMany _ hfull => exact ⟨rfl, .inr (.inr ⟨rfl, hfull⟩)⟩
  | tooDeep _ _ hfull => exact ⟨hfull.symm, .inr ⟨rfl, rfl⟩⟩
  | enter hr _ _ he => exact Routine.enter_attributed hr he

namespace Machine

/-- A fault of an execution of an existing function is attributed. -/
theorem Ends.attributed {m : Machine} (h : m.Ends entry arguments (.failed (.fault fault)))
    (hentry : entry < m.program.size) : fault.Attributed m.program m.limits entry arguments := by
  obtain hstart | ⟨s, hs, halt⟩ := h.cases
  · exact (start_eq_fault_iff.mp hstart).attributed hentry
  · obtain ⟨failure, hturn, houtcome⟩ | ⟨-, -, houtcome⟩ := halt_cases halt
    · cases houtcome
      exact (turn_eq_fault_iff.mp hturn).attributed hs.sound.stack_le
    · cases houtcome

/-- An entry that does not exist is reported. -/
theorem ends_of_size_le {m : Machine} (h : m.program.size ≤ entry) :
    m.Ends entry arguments (.failed (.fault (.noSuchEntry entry m.program.size))) :=
  ends_of_start_halt (start_eq_fault_iff.mpr (.noEntry (Array.getElem?_eq_none_iff.mpr h)))

/-- **Faults point at their cause.**  An execution reports that its function does not exist
exactly if it does not.  Any other failure is a fault of execution in a function of the program,
and what the fault says about the program, the limits and the arguments is so.  Only a program with
a function whose slots do not fit into memory can fail without a fault. -/
theorem faults_are_attributed (m : Machine) (entry : Nat) (arguments : List Value) :
    (m.Ends entry arguments (.failed (.fault (.noSuchEntry entry m.program.size))) ↔
      m.program.size ≤ entry) ∧
    ∀ failure, m.Ends entry arguments (.failed failure) →
      (failure = .stuck ∧ ∃ r ∈ m.program, Frame.slotLimit ≤ r.slots) ∨
      ∃ fault, failure = .fault fault ∧ fault.phase = .execution ∧
        (fault = .noSuchEntry entry m.program.size ∨
          (∃ function < m.program.size, fault.function? = some function) ∧
            fault.Attributed m.program m.limits entry arguments) := by
  refine ⟨⟨?_, ends_of_size_le⟩, ?_⟩
  · intro h
    refine Nat.le_of_not_lt fun hentry => ?_
    exact h.attributed hentry
  · intro failure h
    cases failure with
    | stuck => exact .inl ⟨rfl, h.exists_slotLimit_le⟩
    | fault fault =>
      refine .inr ⟨fault, rfl, ?_⟩
      by_cases hentry : entry < m.program.size
      · have hattributed := h.attributed hentry
        exact ⟨hattributed.phase_eq, .inr ⟨hattributed.function_lt hentry, hattributed⟩⟩
      · have hmissing : m.Ends entry arguments (.failed (.fault (.noSuchEntry entry _))) :=
          ends_of_size_le (Nat.le_of_not_lt hentry)
        cases h.unique hmissing
        exact ⟨rfl, .inl rfl⟩

/-- With room for one value only, the helper that squares fails at its second load. -/
theorem squaring_overflow_attributed :
    (squaring.withLimits ⟨2, 1⟩).Ends 0 [.integer 5]
        (.failed (.fault (.stackOverflow ⟨1, 2⟩ 1))) ∧
      (Fault.stackOverflow ⟨1, 2⟩ 1).phase = .execution ∧
      (Fault.stackOverflow ⟨1, 2⟩ 1).Attributed squaring.program ⟨2, 1⟩ 0 [.integer 5] := by
  have hends : (squaring.withLimits ⟨2, 1⟩).Ends 0 [.integer 5]
      (.failed (.fault (.stackOverflow ⟨1, 2⟩ 1))) := ⟨10, rfl⟩
  obtain ⟨hstuck, -⟩ | ⟨fault, hfault, hphase, hcases⟩ :=
    ((squaring.withLimits ⟨2, 1⟩).faults_are_attributed 0 [.integer 5]).2 _ hends
  · cases hstuck
  cases hfault
  rcases hcases with hmissing | ⟨-, hattributed⟩
  · cases hmissing
  · exact ⟨hends, hphase, hattributed⟩

end Machine

end StackMachine
