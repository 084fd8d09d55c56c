import StackMachine.Proofs.Execution.Limits
import StackMachine.Proofs.Execution.Locality
import StackMachine.Proofs.Execution.Recursion

/-!
# Surplus arguments

The function that an execution starts with owns the whole stack, its base is zero, so arguments
beyond its inputs are its own and count among its outputs when it is left.  An execution that
returns goes wrong with more arguments below the old ones, and only at its very end
(`Machine.surplus_arguments_fail_at_exit`).

The proof compares executions by recursion.  What the first function calls does not own the surplus:
its evaluation is the old one on top of it (`evaluate_atop`).  The first function itself owns it
but never gets at it.  A turn on top of other values is the old turn if the base is raised, and a
lower base changes nothing as long as nothing fails (`turn_withBase_of_proceed`,
`turn_withBase_of_call`).  So the invocation goes on as before until it leaves, and there the count
of its outputs is off by the surplus (`Routine.leave_of_surplus`).
-/

namespace StackMachine

variable {program : Program} {limits : Limits} {fuel live base k : Nat} {frame frame' : Frame}
  {stack stack' below surplus : Stack Value}

/-! ### Evaluations on top of other values -/

/-- **An evaluation does not see what lies below.** -/
theorem evaluate_atop :
    evaluate program (limits.raise k below.size) fuel (live + k) (frame.raise below.size)
        (stack.atop below) =
      (evaluate program limits fuel live frame stack).map
        (raised k below.size (·.atop below)) := by
  induction fuel generalizing live frame stack with
  | zero => rfl
  | succ fuel ih =>
    rw [evaluate_succ, evaluate_succ, turn_atop]
    cases turn program limits live frame stack with
    | fail failure => rfl
    | leave => rfl
    | proceed frame' stack' => exact ih
    | call inner =>
      simp only [Turn.atop, Turn.result, Nat.add_right_comm live k 1, ih, Frame.advance_raise]
      cases evaluate program limits fuel (live + 1) inner stack with
      | none => rfl
      | some result =>
        cases result with
        | error failure => rfl
        | ok stack' => exact ih

/-! ### A lower base -/

def Frame.withBase (base : Nat) (frame : Frame) : Frame := { frame with base := base }

/-- Who may pop more can do the same. -/
theorem Proceeds.withBase {op : Op} (h : Proceeds limits frame op stack frame' stack')
    (hbase : base ≤ frame.base) :
    Proceeds limits (frame.withBase base) op stack (frame'.withBase base) stack' := by
  cases h with
  | load isSet room => exact .load isSet room
  | store hslot hb =>
    have hslot' : _ < (frame.withBase base).slots.size := hslot
    exact .store hslot' (Nat.le_trans hbase hb)
  | branch => exact .branch
  | @branchIf flag b target _ hb =>
    have hpop : Proceeds limits (frame.withBase base) (.branchIf flag target)
        (stack'.push (.boolean b)) _ stack' := .branchIf (Nat.le_trans hbase hb)
    by_cases hflag : b = flag
    · rw [if_pos hflag] at hpop ⊢
      exact hpop
    · rw [if_neg hflag] at hpop ⊢
      exact hpop
  | push room => exact .push room
  | unary hb room => exact .unary (Nat.le_trans hbase hb) room
  | binary hb room => exact .binary (Nat.le_trans hbase hb) room

theorem turn_withBase_of_proceed
    (h : turn program limits live frame stack = .proceed frame' stack')
    (hbase : base ≤ frame.base) :
    turn program limits live (frame.withBase base) stack =
      .proceed (frame'.withBase base) stack' := by
  obtain ⟨routine, op, hr, hop, hproceeds⟩ := turn_eq_proceed_iff.mp h
  exact turn_eq_proceed_iff.mpr ⟨routine, op, hr, hop, hproceeds.withBase hbase⟩

/-- The base of a function that is called depends on its inputs only. -/
theorem turn_withBase_of_call {inner : Frame}
    (h : turn program limits live frame stack = .call inner) (hbase : base ≤ frame.base) :
    turn program limits live (frame.withBase base) stack = .call inner := by
  obtain ⟨hlive, routine, callee, target, hr, hop, htarget, ha⟩ := turn_eq_call_iff.mp h
  obtain ⟨hslots, hroom, htypes, hinner⟩ := Routine.activate_eq_ok_iff.mp ha
  have hroom' : base + target.inputs.length ≤ stack.size := by omega
  exact turn_eq_call_iff.mpr ⟨hlive, routine, callee, target, hr, hop, htarget,
    Routine.activate_eq_ok_iff.mpr ⟨hslots, hroom', htypes, hinner⟩⟩

/-! ### The first function -/

/-- What may be left with all the values on the stack may not be left with any more. -/
theorem Routine.leave_of_surplus {r : Routine} (h : r.leave frame stack = .ok ())
    (hbase : frame.base = 0) (hsurplus : 0 < surplus.size) :
    r.leave frame (stack.atop surplus) =
      .error (.fault (.wrongOutputCount frame.function stack.size
        (stack.size + surplus.size))) := by
  obtain ⟨-, htypes⟩ := leave_eq_ok_iff.mp h
  have hcount : r.outputs.length = stack.size := by
    rw [← htypes, List.length_map, Stack.length_above, hbase, Nat.sub_zero]
  have hmore : stack.size + surplus.size ≠ stack.size := by omega
  simp only [leave, hbase, hcount, Stack.size_atop, Nat.not_lt_zero, if_false, Nat.sub_zero,
    if_pos hmore]

/-- Raising the base of a function that owns the whole stack, and taking that back. -/
theorem Frame.withBase_raise (h : frame.base = 0) (b : Nat) :
    (frame.raise b).withBase 0 = frame := by
  obtain ⟨function, position, slots, base⟩ := frame
  obtain rfl : base = 0 := h
  rfl

theorem turn_proceed_of_surplus (h : turn program limits live frame stack = .proceed frame' stack')
    (hbase : frame.base = 0) (hbase' : frame'.base = 0) :
    turn program (limits.raise 0 surplus.size) live frame (stack.atop surplus) =
      .proceed frame' (stack'.atop surplus) := by
  have hraised : turn program (limits.raise 0 surplus.size) live (frame.raise surplus.size)
      (stack.atop surplus) = .proceed (frame'.raise surplus.size) (stack'.atop surplus) := by
    rw [← Nat.add_zero live, turn_atop, h]
    rfl
  have hlower := turn_withBase_of_proceed hraised (Nat.zero_le _)
  rwa [Frame.withBase_raise hbase, Frame.withBase_raise hbase'] at hlower

theorem turn_call_of_surplus {inner : Frame}
    (h : turn program limits live frame stack = .call inner) (hbase : frame.base = 0) :
    turn program (limits.raise 0 surplus.size) live frame (stack.atop surplus) =
      .call (inner.raise surplus.size) := by
  have hraised : turn program (limits.raise 0 surplus.size) live (frame.raise surplus.size)
      (stack.atop surplus) = .call (inner.raise surplus.size) := by
    rw [← Nat.add_zero live, turn_atop, h]
    rfl
  have hlower := turn_withBase_of_call hraised (Nat.zero_le _)
  rwa [Frame.withBase_raise hbase] at hlower

/-- **The first function does as before until it leaves**, and then it has too many outputs. -/
theorem evaluate_of_surplus (h : evaluate program limits fuel live frame stack = some (.ok stack'))
    (hbase : frame.base = 0) (hsurplus : 0 < surplus.size) :
    evaluate program (limits.raise 0 surplus.size) fuel live frame (stack.atop surplus) =
      some (.error (.fault (.wrongOutputCount frame.function stack'.size
        (stack'.size + surplus.size)))) := by
  induction fuel generalizing frame stack with
  | zero => cases h
  | succ fuel ih =>
    rw [evaluate_succ] at h ⊢
    cases hturn : turn program limits live frame stack with
    | fail failure =>
      rw [hturn] at h
      cases h
    | leave =>
      rw [hturn] at h
      cases h
      obtain ⟨routine, hr, hover, hleave⟩ := turn_eq_leave_iff.mp hturn
      have hrefused := Routine.leave_of_surplus hleave hbase hsurplus
      rw [turn_eq_fault_iff.mpr (.leave hr hover hrefused)]
      rfl
    | proceed frame' stack'' =>
      rw [hturn] at h
      obtain ⟨routine, op, -, -, hproceeds⟩ := turn_eq_proceed_iff.mp hturn
      obtain ⟨hfunction, hbase', -⟩ := hproceeds.frame_eq
      have hzero : frame'.base = 0 := hbase'.trans hbase
      have hrest := ih h hzero
      rw [hfunction] at hrest
      rw [turn_proceed_of_surplus hturn hbase hzero]
      exact hrest
    | call inner =>
      rw [hturn] at h
      simp only [Turn.result] at h
      cases hinner : evaluate program limits fuel (live + 1) inner stack with
      | none =>
        rw [hinner] at h
        cases h
      | some result =>
        rw [hinner] at h
        cases result with
        | error failure => cases h
        | ok stack'' =>
          have hcallee : evaluate program (limits.raise 0 surplus.size) fuel (live + 1)
              (inner.raise surplus.size) (stack.atop surplus) =
                some (.ok (stack''.atop surplus)) := by
            rw [← Nat.add_zero (live + 1), evaluate_atop, hinner]
            rfl
          rw [turn_call_of_surplus hturn hbase]
          simp only [Turn.result, hcallee]
          exact ih h hbase

/-! ### Whole executions -/

namespace Machine

variable {m : Machine} {entry : Nat} {arguments : List Value} {outcome : Outcome}

theorem RoomFor.mono {limits limits' : Limits} (h : m.RoomFor entry arguments limits)
    (hdepth : limits.callDepth ≤ limits'.callDepth)
    (hstack : limits.stackDepth ≤ limits'.stackDepth) : m.RoomFor entry arguments limits' where
  depth_pos := Nat.lt_of_lt_of_le h.depth_pos hdepth
  arguments_le := Nat.le_trans h.arguments_le hstack
  states := by
    intro s hs
    obtain ⟨hcall, hnext⟩ := h.states s hs
    exact ⟨fun callee hop => Nat.le_trans (hcall callee hop) hdepth,
      fun t ht => Nat.le_trans (hnext t ht) hstack⟩

/-- Higher limits do not change an outcome that is not due to them. -/
theorem Ends.of_higher_limits {limits : Limits} (h : m.Ends entry arguments outcome)
    (hentry : entry < m.program.size) (hlimit : ¬ outcome.ExceedsLimit)
    (hdepth : m.limits.callDepth ≤ limits.callDepth)
    (hstack : m.limits.stackDepth ≤ limits.stackDepth) :
    (m.withLimits limits).Ends entry arguments outcome := by
  by_cases hroom : m.RoomFor entry arguments m.limits
  · exact h.of_room hlimit (hroom.mono hdepth hstack)
  · obtain ⟨outcome', hlimit', hends⟩ := exists_ends_of_no_room hentry hroom
    obtain rfl := h.unique hends
    exact absurd hlimit' hlimit

theorem start_of_surplus {s : State} (surplus : List Value)
    (h : (start m.program m.limits entry arguments).transition = .next s) :
    (start m.program (m.limits.raise 0 surplus.length) entry (surplus ++ arguments)).transition =
      .next { s with stack := s.stack.atop (.ofList surplus) } := by
  obtain ⟨routine, hr, hstack, hdepth, hcount, htypes, hslots, rfl⟩ := start_eq_next_iff.mp h
  have hlength : (surplus ++ arguments).length = arguments.length + surplus.length := by
    rw [List.length_append, Nat.add_comm]
  have hatop : Stack.ofList (surplus ++ arguments) =
      (Stack.ofList arguments).atop (.ofList surplus) := Stack.ext List.reverse_append
  have htop := Stack.top_atop (s := .ofList arguments) (.ofList surplus) hcount
  rw [← hatop] at htop ⊢
  refine start_eq_next_iff.mpr ⟨routine, hr, ?_, hdepth, ?_, ?_, hslots, rfl⟩
  · rw [hlength]
    exact Nat.add_le_add_right hstack _
  · rw [hlength]
    exact Nat.le_add_right_of_le hcount
  · rw [htop]
    exact htypes

/-- **Surplus arguments fail when the function is left.**  Let the execution of a function on some
arguments return.  With any more arguments below them, and as much more room on the stack, it fails:
the function is left with its outputs and the surplus, where only its outputs may be. -/
theorem surplus_arguments_fail_at_exit {outputs surplus : List Value} {limits : Limits}
    (h : m.Ends entry arguments (.returned outputs)) (hsurplus : surplus ≠ [])
    (hdepth : m.limits.callDepth ≤ limits.callDepth)
    (hstack : m.limits.stackDepth + surplus.length ≤ limits.stackDepth) :
    (m.withLimits limits).Ends entry (surplus ++ arguments)
      (.failed (.fault (.wrongOutputCount entry outputs.length
        (surplus.length + outputs.length)))) := by
  cases hstart : (start m.program m.limits entry arguments).transition with
  | halt outcome =>
    obtain rfl := h.unique (ends_of_start_halt hstart)
    obtain ⟨failure, hfailure⟩ := exists_failure_of_start_halt hstart
    cases hfailure
  | next s =>
    have hstart' := start_of_surplus surplus hstart
    obtain ⟨routine, hr, -, -, -, -, -, rfl⟩ := start_eq_next_iff.mp hstart
    obtain ⟨fuel, hfuel⟩ := (endsFrom_iff_evaluate rfl).mp ((ends_iff_of_start hstart).mp h)
    obtain ⟨result, hresult, houtcome⟩ := Option.map_eq_some_iff.mp hfuel
    cases result with
    | error failure => cases houtcome
    | ok stack =>
      cases houtcome
      have hsize : 0 < (Stack.ofList surplus).size := List.length_pos_of_ne_nil hsurplus
      have hfails := evaluate_of_surplus hresult rfl hsize
      have hends := (ends_iff_of_start (m := m.withLimits (m.limits.raise 0 surplus.length))
        hstart').mpr (endsFrom_of_evaluate rfl hfails)
      have hentry : entry < m.program.size := (Array.getElem?_eq_some_iff.mp hr).1
      rw [Stack.length_toList, Nat.add_comm]
      exact hends.of_higher_limits hentry id hdepth hstack

/-- The helper of the machine that squares, on two numbers in place of one. -/
theorem squaring_helper_keeps_surplus :
    squaring.Ends 1 [.integer 5] (.returned [.integer 25]) ∧
      ([.boolean true, .integer 7] : List Value) ≠ [] ∧
      (squaring.withLimits ⟨1024, 4098⟩).Ends 1 [.boolean true, .integer 7, .integer 5]
        (.failed (.fault (.wrongOutputCount 1 1 3))) := by
  have hends : squaring.Ends 1 [.integer 5] (.returned [.integer 25]) := ⟨10, rfl⟩
  have hne : ([.boolean true, .integer 7] : List Value) ≠ [] := List.cons_ne_nil _ _
  exact ⟨hends, hne, surplus_arguments_fail_at_exit hends hne (by decide) (by decide)⟩

end Machine

end StackMachine
