import StackMachine.Proofs.Execution.Turn

/-!
# How an operation fails

`Proceeds` lists the ways in which an operation can go well.  `Fails` lists those in which it can
go wrong, again one rule for each check that may refuse: a pop finds no value or one of the wrong
type (`PopFails`), a slot is unset, or there is no room for a push.  An operation has these faults
and no others (`perform_eq_fault_iff`).

For a whole turn there are four ways (`TurnFails`): its operation fails, it would call too deep,
the function it calls cannot be entered, or its own function cannot be left
(`turn_eq_fault_iff`).  At the beginning of an execution there are four as well (`StartFails`): the
function does not exist, the arguments or the first invocation exceed a limit, or the function
cannot be entered (`start_eq_fault_iff`).
-/

namespace StackMachine

/-! ### Checked access to the stack -/

section Access

variable {limit base : Nat} {site : Site} {stack : Stack Value} {value : Value}
  {failure : Failure}

theorem popAbove_eq_error_iff :
    popAbove site base stack = .error failure ↔
      stack.size ≤ base ∧ failure = .fault (.tooFewValues site 1 0) := by
  obtain rfl | ⟨v, rest, rfl⟩ := stack.eq_empty_or_push
  · rw [popAbove_empty]
    simp [eq_comm]
  · rw [popAbove_push, Stack.size_push]
    by_cases hbase : base ≤ rest.size
    · rw [if_pos hbase]
      simp only [reduceCtorEq, false_iff, not_and]
      omega
    · rw [if_neg hbase]
      have hle : rest.size + 1 ≤ base := by omega
      simp [hle, eq_comm]

inductive PopFails (t : ValueType) (site : Site) (base : Nat) : Stack Value → Fault → Prop where
  | tooFew {stack : Stack Value} (none_left : stack.size ≤ base) :
      PopFails t site base stack (.tooFewValues site 1 0)
  | wrongType {rest : Stack Value} {value : Value} (base_le : base ≤ rest.size)
      (type_ne : value.type ≠ t) :
      PopFails t site base (rest.push value) (.wrongValueType site t value.type)

theorem popTyped_eq_fault_iff {t : ValueType} {fault : Fault} :
    popTyped t site base stack = .error (.fault fault) ↔ PopFails t site base stack fault := by
  rw [popTyped, bind_eq_error_iff]
  constructor
  · rintro (h | ⟨⟨value, rest⟩, hpop, h⟩)
    · obtain ⟨hle, hfault⟩ := popAbove_eq_error_iff.mp h
      cases hfault
      exact .tooFew hle
    · obtain ⟨rfl, hbase⟩ := popAbove_eq_ok_iff.mp hpop
      cases hx : value.as? t with
      | some x => simp [hx, pure, Except.pure] at h
      | none =>
        simp only [hx] at h
        cases h
        exact .wrongType hbase (Value.as?_eq_none_iff.mp hx)
  · intro h
    cases h with
    | tooFew hle => exact .inl (popAbove_eq_error_iff.mpr ⟨hle, rfl⟩)
    | @wrongType rest value hbase hne =>
      refine .inr ⟨(value, rest), popAbove_eq_ok_iff.mpr ⟨rfl, hbase⟩, ?_⟩
      simp only [Value.as?_eq_none_iff.mpr hne]
      rfl

theorem pushBelow_eq_error_iff :
    pushBelow limit site value stack = .error failure ↔
      limit ≤ stack.size ∧ failure = .fault (.stackOverflow site limit) := by
  unfold pushBelow
  by_cases hroom : stack.size < limit
  · simp [hroom, Nat.not_le.mpr hroom]
  · simp [hroom, Nat.le_of_not_lt hroom, eq_comm]

end Access

/-! ### Operations -/

/-- An operation at `site`, with the frame already moved past it, cannot be carried out. -/
inductive Fails (limits : Limits) (site : Site) (frame : Frame) :
    Op → Stack Value → Fault → Prop where
  | loadUnset {slot : Nat} {stack : Stack Value} (unset : frame.slots[slot]? = some none) :
      Fails limits site frame (.load slot) stack (.unsetSlot site slot)
  | loadFull {slot : Nat} {value : Value} {stack : Stack Value}
      (isSet : frame.slots[slot]? = some (some value)) (full : limits.stackDepth ≤ stack.size) :
      Fails limits site frame (.load slot) stack (.stackOverflow site limits.stackDepth)
  | store {slot : Nat} {stack : Stack Value} (none_left : stack.size ≤ frame.base) :
      Fails limits site frame (.store slot) stack (.tooFewValues site 1 0)
  | branchIf {flag : Bool} {target : Nat} {stack : Stack Value} {fault : Fault}
      (pop : PopFails .boolean site frame.base stack fault) :
      Fails limits site frame (.branchIf flag target) stack fault
  | pushFull {value : Value} {stack : Stack Value} (full : limits.stackDepth ≤ stack.size) :
      Fails limits site frame (.push value) stack (.stackOverflow site limits.stackDepth)
  | unary {o : UnaryOp} {stack : Stack Value} {fault : Fault}
      (pop : PopFails o.type site frame.base stack fault) :
      Fails limits site frame (.unary o) stack fault
  | unaryFull {o : UnaryOp} {a : o.type.Carrier} {rest : Stack Value}
      (base_le : frame.base ≤ rest.size) (full : limits.stackDepth ≤ rest.size) :
      Fails limits site frame (.unary o) (rest.push (.of o.type a))
        (.stackOverflow site limits.stackDepth)
  | binarySecond {o : BinaryOp} {stack : Stack Value} {fault : Fault}
      (pop : PopFails o.operandType site frame.base stack fault) :
      Fails limits site frame (.binary o) stack fault
  | binaryFirst {o : BinaryOp} {b : o.operandType.Carrier} {rest : Stack Value} {fault : Fault}
      (base_le : frame.base ≤ rest.size) (pop : PopFails o.operandType site frame.base rest fault) :
      Fails limits site frame (.binary o) (rest.push (.of o.operandType b)) fault
  | binaryFull {o : BinaryOp} {a b : o.operandType.Carrier} {rest : Stack Value}
      (base_le : frame.base ≤ rest.size) (full : limits.stackDepth ≤ rest.size) :
      Fails limits site frame (.binary o)
        ((rest.push (.of o.operandType a)).push (.of o.operandType b))
        (.stackOverflow site limits.stackDepth)

section Operations

variable {limits : Limits} {site : Site} {frame : Frame} {stack : Stack Value} {op : Op}
  {fault : Fault}

theorem fails_of_perform (h : perform limits site frame stack op = .error (.fault fault)) :
    Fails limits site frame op stack fault := by
  cases op with
  | load slot =>
    simp only [perform] at h
    split at h
    · rename_i value hv
      simp only [bind_eq_error_iff, pushBelow_eq_error_iff] at h
      obtain ⟨hfull, hfault⟩ | ⟨pushed, -, h⟩ := h
      · cases hfault
        exact .loadFull hv hfull
      · cases h
    · rename_i hunset
      cases h
      exact .loadUnset hunset
    · cases h
  | store slot =>
    simp only [perform, bind_eq_error_iff, popAbove_eq_error_iff] at h
    obtain ⟨hle, hfault⟩ | ⟨popped, -, h⟩ := h
    · cases hfault
      exact .store hle
    · split at h <;> cases h
  | call callee => cases h
  | exit => cases h
  | branch target => cases h
  | branchIf flag target =>
    simp only [perform, bind_eq_error_iff] at h
    obtain hpop | ⟨popped, -, h⟩ := h
    · exact .branchIf (popTyped_eq_fault_iff.mp hpop)
    · cases h
  | push value =>
    simp only [perform, bind_eq_error_iff, pushBelow_eq_error_iff] at h
    obtain ⟨hfull, hfault⟩ | ⟨pushed, -, h⟩ := h
    · cases hfault
      exact .pushFull hfull
    · cases h
  | unary o =>
    simp only [perform, bind_eq_error_iff, popTyped_eq_fault_iff, Prod.exists, popTyped_eq_ok_iff,
      pushBelow_eq_error_iff] at h
    obtain hpop | ⟨a, rest, ⟨rfl, hbase⟩, ⟨hfull, hfault⟩ | ⟨pushed, -, h⟩⟩ := h
    · exact .unary hpop
    · cases hfault
      exact .unaryFull hbase hfull
    · cases h
  | binary o =>
    simp only [perform, bind_eq_error_iff, popTyped_eq_fault_iff, Prod.exists, popTyped_eq_ok_iff,
      pushBelow_eq_error_iff] at h
    obtain hpop | ⟨b, upper, ⟨rfl, hupper⟩, hpop | ⟨a, rest, ⟨rfl, hbase⟩, h⟩⟩ := h
    · exact .binarySecond hpop
    · exact .binaryFirst hupper hpop
    · obtain ⟨hfull, hfault⟩ | ⟨pushed, -, h⟩ := h
      · cases hfault
        exact .binaryFull hbase hfull
      · cases h

theorem perform_of_fails (h : Fails limits site frame op stack fault) :
    perform limits site frame stack op = .error (.fault fault) := by
  cases h with
  | loadUnset hunset => simp only [perform, hunset]
  | loadFull hset hfull =>
    simp only [perform, hset]
    exact bind_eq_error_iff.mpr (.inl (pushBelow_eq_error_iff.mpr ⟨hfull, rfl⟩))
  | store hle => exact bind_eq_error_iff.mpr (.inl (popAbove_eq_error_iff.mpr ⟨hle, rfl⟩))
  | branchIf hpop | unary hpop | binarySecond hpop =>
    exact bind_eq_error_iff.mpr (.inl (popTyped_eq_fault_iff.mpr hpop))
  | pushFull hfull =>
    exact bind_eq_error_iff.mpr (.inl (pushBelow_eq_error_iff.mpr ⟨hfull, rfl⟩))
  | unaryFull hbase hfull =>
    refine bind_eq_error_iff.mpr (.inr ⟨_, popTyped_eq_ok_iff.mpr ⟨rfl, hbase⟩, ?_⟩)
    exact bind_eq_error_iff.mpr (.inl (pushBelow_eq_error_iff.mpr ⟨hfull, rfl⟩))
  | binaryFirst hbase hpop =>
    refine bind_eq_error_iff.mpr (.inr ⟨_, popTyped_eq_ok_iff.mpr ⟨rfl, hbase⟩, ?_⟩)
    exact bind_eq_error_iff.mpr (.inl (popTyped_eq_fault_iff.mpr hpop))
  | binaryFull hbase hfull =>
    refine bind_eq_error_iff.mpr
      (.inr ⟨_, popTyped_eq_ok_iff.mpr ⟨rfl, Nat.le_succ_of_le hbase⟩, ?_⟩)
    refine bind_eq_error_iff.mpr (.inr ⟨_, popTyped_eq_ok_iff.mpr ⟨rfl, hbase⟩, ?_⟩)
    exact bind_eq_error_iff.mpr (.inl (pushBelow_eq_error_iff.mpr ⟨hfull, rfl⟩))

/-- **What fails, and why.**  An operation has the faults that `Fails` says, and no others. -/
theorem perform_eq_fault_iff :
    perform limits site frame stack op = .error (.fault fault) ↔
      Fails limits site frame op stack fault :=
  ⟨fails_of_perform, perform_of_fails⟩

end Operations

/-! ### Turns -/

/-- The next turn of an invocation that is one of `live` fails. -/
inductive TurnFails (program : Program) (limits : Limits) (live : Nat) (frame : Frame)
    (stack : Stack Value) : Fault → Prop where
  | operation {routine : Routine} {op : Op} {fault : Fault}
      (function : program[frame.function]? = some routine)
      (fetch : routine.ops[frame.position]? = some op)
      (fails : Fails limits frame.site frame.advance op stack fault) :
      TurnFails program limits live frame stack fault
  | tooDeep {routine : Routine} {callee : Nat}
      (function : program[frame.function]? = some routine)
      (fetch : routine.ops[frame.position]? = some (.call callee))
      (full : limits.callDepth ≤ live) :
      TurnFails program limits live frame stack (.callDepthExceeded frame.site limits.callDepth)
  | enter {routine target : Routine} {callee : Nat} {fault : Fault}
      (function : program[frame.function]? = some routine)
      (fetch : routine.ops[frame.position]? = some (.call callee))
      (room : live < limits.callDepth) (callee_eq : program[callee]? = some target)
      (refused : target.enter callee frame.base stack = .error (.fault fault)) :
      TurnFails program limits live frame stack fault
  | leave {routine : Routine} {fault : Fault}
      (function : program[frame.function]? = some routine)
      (finished : routine.ops[frame.position]? = none ∨ routine.ops[frame.position]? = some .exit)
      (refused : routine.leave frame stack = .error (.fault fault)) :
      TurnFails program limits live frame stack fault

section Turns

variable {program : Program} {limits : Limits} {live : Nat} {frame : Frame} {stack : Stack Value}
  {routine : Routine} {fault : Fault}

theorem lastTurn_eq_fault_iff :
    routine.lastTurn frame stack = .fail (.fault fault) ↔
      routine.leave frame stack = .error (.fault fault) := by
  simp only [Routine.lastTurn]
  cases routine.leave frame stack <;> simp

theorem callTurn_eq_fault_iff {callee : Nat} :
    callTurn program limits live frame stack callee = .fail (.fault fault) ↔
      (limits.callDepth ≤ live ∧ fault = .callDepthExceeded frame.site limits.callDepth) ∨
      live < limits.callDepth ∧ ∃ target, program[callee]? = some target ∧
        target.enter callee frame.base stack = .error (.fault fault) := by
  simp only [callTurn]
  by_cases hdepth : limits.callDepth < live + 1
  · have hle : limits.callDepth ≤ live := Nat.le_of_lt_succ hdepth
    rw [if_pos hdepth]
    simp [hle, Nat.not_lt.mpr hle, eq_comm]
  · have hlt : live < limits.callDepth := by omega
    rw [if_neg hdepth]
    cases program[callee]? with
    | none => simp [Nat.not_le.mpr hlt]
    | some target =>
      simp only [Option.some.injEq, exists_eq_left', ← Routine.activate_eq_fault_iff]
      cases target.activate callee frame.base stack <;> simp [hlt, Nat.not_le.mpr hlt]

theorem turn_eq_fault_iff :
    turn program limits live frame stack = .fail (.fault fault) ↔
      TurnFails program limits live frame stack fault := by
  constructor
  · intro h
    unfold turn at h
    split at h
    · cases h
    rename_i routine hr
    split at h
    · rename_i hop
      exact .leave hr (.inl hop) (lastTurn_eq_fault_iff.mp h)
    rename_i op hop
    split at h
    · rename_i failure hfails
      cases h
      exact .operation hr hop (perform_eq_fault_iff.mp hfails)
    · cases h
    · rename_i hexit
      obtain rfl := perform_eq_exit_iff.mp hexit
      exact .leave hr (.inr hop) (lastTurn_eq_fault_iff.mp h)
    · rename_i callee hcall
      obtain rfl := perform_eq_call_iff.mp hcall
      obtain ⟨hfull, rfl⟩ | ⟨hroom, target, htarget, he⟩ := callTurn_eq_fault_iff.mp h
      · exact .tooDeep hr hop hfull
      · exact .enter hr hop hroom htarget he
  · intro h
    cases h with
    | operation hr hop hfails => simp only [turn, hr, hop, perform_eq_fault_iff.mpr hfails]
    | tooDeep hr hop hfull =>
      simp only [turn, hr, hop, perform]
      exact callTurn_eq_fault_iff.mpr (.inl ⟨hfull, rfl⟩)
    | enter hr hop hroom htarget he =>
      simp only [turn, hr, hop, perform]
      exact callTurn_eq_fault_iff.mpr (.inr ⟨hroom, _, htarget, he⟩)
    | leave hr hover hl =>
      obtain hop | hop := hover
      · simp only [turn, hr, hop]
        exact lastTurn_eq_fault_iff.mpr hl
      · simp only [turn, hr, hop, perform]
        exact lastTurn_eq_fault_iff.mpr hl

/-- A turn that fails ends the execution. -/
theorem TurnFails.halt {s : State}
    (h : TurnFails program limits (s.suspended.size + 1) s.frame s.stack fault) :
    (step program limits s).transition = .halt (.failed (.fault fault)) := by
  rw [transition_step, turn_eq_fault_iff.mpr h]
  rfl

end Turns

/-! ### The beginning -/

inductive StartFails (program : Program) (limits : Limits) (entry : Nat) (arguments : List Value) :
    Fault → Prop where
  | noEntry (missing : program[entry]? = none) :
      StartFails program limits entry arguments (.noSuchEntry entry program.size)
  | tooMany {routine : Routine} (function : program[entry]? = some routine)
      (full : limits.stackDepth < arguments.length) :
      StartFails program limits entry arguments (.stackOverflow ⟨entry, 0⟩ limits.stackDepth)
  | tooDeep {routine : Routine} (function : program[entry]? = some routine)
      (room : arguments.length ≤ limits.stackDepth) (full : limits.callDepth = 0) :
      StartFails program limits entry arguments (.callDepthExceeded ⟨entry, 0⟩ 0)
  | enter {routine : Routine} {fault : Fault} (function : program[entry]? = some routine)
      (room : arguments.length ≤ limits.stackDepth) (depth : 0 < limits.callDepth)
      (refused : routine.enter entry 0 (.ofList arguments) = .error (.fault fault)) :
      StartFails program limits entry arguments fault

theorem start_eq_fault_iff {program : Program} {limits : Limits} {entry : Nat}
    {arguments : List Value} {fault : Fault} :
    (start program limits entry arguments).transition = .halt (.failed (.fault fault)) ↔
      StartFails program limits entry arguments fault := by
  constructor
  · intro h
    simp only [start] at h
    split at h
    · rename_i hr
      cases h
      exact .noEntry hr
    rename_i routine hr
    split at h
    · rename_i hfull
      cases h
      exact .tooMany hr hfull
    rename_i hroom
    split at h
    · rename_i hfull
      cases h
      exact .tooDeep hr (Nat.le_of_not_lt hroom) hfull
    rename_i hdepth
    split at h
    · rename_i failure ha
      cases h
      exact .enter hr (Nat.le_of_not_lt hroom) (Nat.pos_of_ne_zero hdepth)
        (Routine.activate_eq_fault_iff.mp ha)
    · cases h
  · intro h
    cases h with
    | noEntry hr =>
      simp only [start, hr]
      rfl
    | tooMany hr hfull =>
      simp only [start, hr, if_pos hfull]
      rfl
    | tooDeep hr hroom hfull =>
      simp only [start, hr, if_neg (Nat.not_lt.mpr hroom), if_pos hfull]
      rfl
    | enter hr hroom hdepth he =>
      simp only [start, hr, if_neg (Nat.not_lt.mpr hroom), if_neg (Nat.ne_of_gt hdepth),
        Routine.activate_eq_fault_iff.mpr he]

end StackMachine
