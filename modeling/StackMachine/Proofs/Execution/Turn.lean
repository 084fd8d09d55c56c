import StackMachine.Execution.Recursive
import StackMachine.Execution.Run
import StackMachine.Proofs.Execution.Contract
import StackMachine.Proofs.Execution.Effect

/-!
# One turn of an invocation

An execution with suspended frames and one by recursion differ in how they keep the callers.  What
the running invocation does next is the same for both, and depends only on its frame, the stack
and the number of live invocations.  `turn` computes it: the invocation fails, proceeds, calls, or
leaves.  Both ways of executing are equations over `turn`,

    (step program limits s).transition = (turn program limits (s.suspended.size + 1) …).apply s

for the one (`transition_step`) and `evaluate_succ` for the other, and after that neither `step`
nor `evaluate` is looked into again.  The three ways to go on are `turn_eq_proceed_iff`,
`turn_eq_call_iff` and `turn_eq_leave_iff`.
-/

namespace StackMachine

/-! ### What a turn comes to -/

inductive Turn where
  /-- The execution fails. -/
  | fail (failure : Failure)
  /-- The invocation goes on. -/
  | proceed (frame : Frame) (stack : Stack Value)
  /-- It waits for a new invocation, which starts on the same stack. -/
  | call (inner : Frame)
  /-- It is over, and its outputs are on the stack. -/
  | leave

def Routine.lastTurn (r : Routine) (frame : Frame) (stack : Stack Value) : Turn :=
  match r.leave frame stack with
  | .ok () => .leave
  | .error failure => .fail failure

/-- The turn of an invocation that is one of `live` and calls a function. -/
def callTurn (program : Program) (limits : Limits) (live : Nat) (frame : Frame)
    (stack : Stack Value) (callee : Nat) : Turn :=
  if limits.callDepth < live + 1 then
    .fail (.fault (.callDepthExceeded frame.site limits.callDepth))
  else
    match program[callee]? with
    | none => .fail .stuck
    | some target =>
      match target.activate callee frame.base stack with
      | .error failure => .fail failure
      | .ok inner => .call inner

/-- The next turn of an invocation that is one of `live`. -/
def turn (program : Program) (limits : Limits) (live : Nat) (frame : Frame) (stack : Stack Value) :
    Turn :=
  match program[frame.function]? with
  | none => .fail .stuck
  | some routine =>
    match routine.ops[frame.position]? with
    | none => routine.lastTurn frame stack
    | some op =>
      match perform limits frame.site frame.advance stack op with
      | .error failure => .fail failure
      | .ok (.proceed frame stack) => .proceed frame stack
      | .ok .exit => routine.lastTurn frame stack
      | .ok (.call callee) => callTurn program limits live frame stack callee

/-! ### Both executions take turns -/

/-- What follows an invocation that is over: its caller goes on, if it has one. -/
def resume (suspended : Stack Frame) (stack : Stack Value) : Transition :=
  match suspended.pop? with
  | some (caller, rest) => .next ⟨stack, caller, rest⟩
  | none => .halt (.returned stack.toList)

/-- Where a turn of the running frame takes a state. -/
def Turn.apply (s : State) : Turn → Transition
  | .fail failure => .halt (.failed failure)
  | .proceed frame stack => .next ⟨stack, frame, s.suspended⟩
  | .call inner => .next ⟨s.stack, inner, s.suspended.push s.frame.advance⟩
  | .leave => resume s.suspended s.stack

theorem transition_finish (s : State) (r : Routine) :
    (s.finish r).transition = (r.lastTurn s.frame s.stack).apply s := by
  simp only [State.finish, Routine.lastTurn]
  cases r.leave s.frame s.stack with
  | error failure => rfl
  | ok u =>
    simp only [Turn.apply, resume]
    cases s.suspended.pop? <;> rfl

theorem transition_invoke (program : Program) (limits : Limits) (s : State) (callee : Nat) :
    (State.invoke { s with frame := s.frame.advance } program limits s.frame.site
        callee).transition =
      (callTurn program limits (s.suspended.size + 1) s.frame s.stack callee).apply s := by
  simp only [State.invoke, callTurn]
  by_cases hdepth : limits.callDepth < s.suspended.size + 2
  · rw [if_pos hdepth, if_pos hdepth]
    rfl
  rw [if_neg hdepth, if_neg hdepth]
  cases program[callee]? with
  | none => rfl
  | some target =>
    simp only [Frame.advance]
    cases target.activate callee s.frame.base s.stack <;> rfl

/-- **A step is a turn of the running frame.** -/
theorem transition_step (program : Program) (limits : Limits) (s : State) :
    (step program limits s).transition =
      (turn program limits (s.suspended.size + 1) s.frame s.stack).apply s := by
  simp only [step, turn]
  cases program[s.frame.function]? with
  | none => rfl
  | some routine =>
    cases hop : routine.ops[s.frame.position]? with
    | none => simp only [hop, transition_finish]
    | some op =>
      simp only [hop, Step.after]
      cases perform limits s.frame.site s.frame.advance s.stack op with
      | error failure => rfl
      | ok flow =>
        cases flow with
        | proceed frame stack => rfl
        | call callee => exact transition_invoke program limits s callee
        | exit => exact transition_finish s routine

/-- What an evaluation makes of the turn of a frame, with fuel for what comes after.  After a call
this is the callee and, once it has left, the caller moved past the call. -/
def Turn.result (program : Program) (limits : Limits) (fuel live : Nat) (frame : Frame)
    (stack : Stack Value) : Turn → Option (Except Failure (Stack Value))
  | .fail failure => some (.error failure)
  | .proceed frame stack => evaluate program limits fuel live frame stack
  | .call inner =>
    match evaluate program limits fuel (live + 1) inner stack with
    | some (.ok stack) => evaluate program limits fuel live frame.advance stack
    | unfinished => unfinished
  | .leave => some (.ok stack)

theorem result_lastTurn (program : Program) (limits : Limits) (fuel live : Nat) (frame : Frame)
    (stack : Stack Value) (r : Routine) :
    (r.lastTurn frame stack).result program limits fuel live frame stack =
      some ((r.leave frame stack).map fun _ => stack) := by
  simp only [Routine.lastTurn]
  cases r.leave frame stack <;> rfl

/-- **An evaluation is a turn, and then the rest.** -/
theorem evaluate_succ (program : Program) (limits : Limits) (fuel live : Nat) (frame : Frame)
    (stack : Stack Value) :
    evaluate program limits (fuel + 1) live frame stack =
      (turn program limits live frame stack).result program limits fuel live frame stack := by
  rw [evaluate, turn]
  cases program[frame.function]? with
  | none => rfl
  | some routine =>
    cases hop : routine.ops[frame.position]? with
    | none => simp only [hop, result_lastTurn]
    | some op =>
      simp only [hop]
      cases perform limits frame.site frame.advance stack op with
      | error failure => rfl
      | ok flow =>
        cases flow with
        | proceed frame stack => rfl
        | exit => simp only [result_lastTurn]
        | call callee =>
          simp only [callTurn]
          by_cases hdepth : limits.callDepth < live + 1
          · rw [if_pos hdepth, if_pos hdepth]
            rfl
          rw [if_neg hdepth, if_neg hdepth]
          cases program[callee]? with
          | none => rfl
          | some target =>
            simp only
            cases target.activate callee frame.base stack <;> rfl

/-! ### The three ways to go on -/

variable {program : Program} {limits : Limits} {live : Nat} {frame frame' inner : Frame}
  {stack stack' : Stack Value} {routine : Routine}

theorem lastTurn_eq_leave_iff :
    routine.lastTurn frame stack = .leave ↔ routine.leave frame stack = .ok () := by
  simp only [Routine.lastTurn]
  cases routine.leave frame stack <;> simp

theorem lastTurn_ne_proceed : routine.lastTurn frame stack ≠ .proceed frame' stack' := by
  simp only [Routine.lastTurn]
  cases routine.leave frame stack <;> simp

theorem lastTurn_ne_call : routine.lastTurn frame stack ≠ .call inner := by
  simp only [Routine.lastTurn]
  cases routine.leave frame stack <;> simp

theorem callTurn_eq_call_iff {callee : Nat} :
    callTurn program limits live frame stack callee = .call inner ↔
      live < limits.callDepth ∧ ∃ target, program[callee]? = some target ∧
        target.activate callee frame.base stack = .ok inner := by
  simp only [callTurn]
  by_cases hdepth : limits.callDepth < live + 1
  · rw [if_pos hdepth]
    simp only [reduceCtorEq, false_iff, not_and]
    omega
  rw [if_neg hdepth]
  have hlive : live < limits.callDepth := by omega
  cases program[callee]? with
  | none => simp
  | some target =>
    cases he : target.activate callee frame.base stack <;> simp [he, hlive]

theorem callTurn_ne_proceed {callee : Nat} :
    callTurn program limits live frame stack callee ≠ .proceed frame' stack' := by
  simp only [callTurn]
  split
  · simp
  · split
    · simp
    · split <;> simp

theorem callTurn_ne_leave {callee : Nat} :
    callTurn program limits live frame stack callee ≠ .leave := by
  simp only [callTurn]
  split
  · simp
  · split
    · simp
    · split <;> simp

theorem turn_eq_proceed_iff :
    turn program limits live frame stack = .proceed frame' stack' ↔
      ∃ routine op, program[frame.function]? = some routine ∧
        routine.ops[frame.position]? = some op ∧
        Proceeds limits frame.advance op stack frame' stack' := by
  constructor
  · intro h
    unfold turn at h
    split at h
    · cases h
    rename_i routine hr
    split at h
    · exact absurd h lastTurn_ne_proceed
    rename_i op hop
    split at h
    · cases h
    · rename_i hp
      cases h
      exact ⟨routine, op, hr, hop, perform_eq_proceed_iff.mp hp⟩
    · exact absurd h lastTurn_ne_proceed
    · exact absurd h callTurn_ne_proceed
  · rintro ⟨routine, op, hr, hop, hp⟩
    simp only [turn, hr, hop, perform_eq_proceed_iff.mpr hp]

theorem turn_eq_call_iff :
    turn program limits live frame stack = .call inner ↔
      live < limits.callDepth ∧ ∃ routine callee target,
        program[frame.function]? = some routine ∧
        routine.ops[frame.position]? = some (.call callee) ∧
        program[callee]? = some target ∧ target.activate callee frame.base stack = .ok inner := by
  constructor
  · intro h
    unfold turn at h
    split at h
    · cases h
    rename_i routine hr
    split at h
    · exact absurd h lastTurn_ne_call
    rename_i op hop
    split at h
    · cases h
    · cases h
    · exact absurd h lastTurn_ne_call
    · rename_i callee hc
      obtain rfl := perform_eq_call_iff.mp hc
      obtain ⟨hlive, target, ht, he⟩ := callTurn_eq_call_iff.mp h
      exact ⟨hlive, routine, callee, target, hr, hop, ht, he⟩
  · rintro ⟨hlive, routine, callee, target, hr, hop, ht, he⟩
    simp only [turn, hr, hop, perform]
    exact callTurn_eq_call_iff.mpr ⟨hlive, target, ht, he⟩

theorem turn_eq_leave_iff :
    turn program limits live frame stack = .leave ↔
      ∃ routine, program[frame.function]? = some routine ∧
        (routine.ops[frame.position]? = none ∨ routine.ops[frame.position]? = some .exit) ∧
        routine.leave frame stack = .ok () := by
  constructor
  · intro h
    unfold turn at h
    split at h
    · cases h
    rename_i routine hr
    split at h
    · rename_i hop
      exact ⟨routine, hr, .inl hop, lastTurn_eq_leave_iff.mp h⟩
    rename_i op hop
    split at h
    · cases h
    · cases h
    · rename_i hx
      obtain rfl := perform_eq_exit_iff.mp hx
      exact ⟨routine, hr, .inr hop, lastTurn_eq_leave_iff.mp h⟩
    · exact absurd h callTurn_ne_leave
  · rintro ⟨routine, hr, hop | hop, hl⟩
    · simp only [turn, hr, hop]
      exact lastTurn_eq_leave_iff.mpr hl
    · simp only [turn, hr, hop, perform]
      exact lastTurn_eq_leave_iff.mpr hl

end StackMachine
