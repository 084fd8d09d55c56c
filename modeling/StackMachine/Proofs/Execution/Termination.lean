import StackMachine.Catalog.Programs
import StackMachine.Proofs.Execution.Recursion

/-!
# Forward branches terminate

Nothing bounds the number of steps of an execution, and a function may call itself.  But a program
whose branches all lead forward cannot run forever (`Machine.forward_program_ends`): within one
invocation the position only grows, and calls nest no deeper than the limit allows.

The proof is about executions by recursion, where the two reasons stand apart.  An invocation has a
result by induction on the calls that the limit still allows, and for each number of them by
induction on the code that is still ahead (`exists_evaluate`).  A call gives up one of the first
for its callee; once the callee is over, the caller has less code ahead of it than before.  What
holds by recursion holds with suspended frames.
-/

namespace StackMachine

/-! ### Programs whose branches lead forward -/

def Op.target? : Op → Option Nat
  | .branch target | .branchIf _ target => some target
  | .load _ | .store _ | .call _ | .exit | .push _ | .unary _ | .binary _ => none

/-- Every branch leads to a later position. -/
def Routine.Forward (r : Routine) : Prop :=
  ∀ position : Fin r.ops.size, ∀ target ∈ r.ops[position].target?, position < target

instance (r : Routine) : Decidable r.Forward :=
  inferInstanceAs (Decidable (∀ position : Fin r.ops.size,
    ∀ target ∈ r.ops[position].target?, position < target))

def Program.Forward (program : Program) : Prop := ∀ r ∈ program, r.Forward

instance (program : Program) : Decidable program.Forward :=
  inferInstanceAs (Decidable (∀ r ∈ program, r.Forward))

section Progress

variable {program : Program} {limits : Limits} {routine : Routine} {frame frame' : Frame}
  {op : Op} {stack stack' : Stack Value}

theorem Routine.Forward.lt_target (h : routine.Forward) {position target : Nat}
    (hop : routine.ops[position]? = some op) (htarget : op.target? = some target) :
    position < target := by
  obtain ⟨hlt, rfl⟩ := Array.getElem?_eq_some_iff.mp hop
  exact h ⟨position, hlt⟩ target htarget

/-- An invocation that goes on has moved forward. -/
theorem Routine.Forward.position_lt (h : routine.Forward)
    (hop : routine.ops[frame.position]? = some op)
    (hp : Proceeds limits frame.advance op stack frame' stack') :
    frame.position < frame'.position := by
  rcases hp.position_eq with hposition | rfl | ⟨flag, rfl⟩
  · rw [hposition]
    exact Nat.lt_succ_self frame.position
  · exact h.lt_target hop rfl
  · exact h.lt_target hop rfl

def codeAhead (program : Program) (frame : Frame) : Nat :=
  (program[frame.function]?.elim 0 fun r => r.ops.size) - frame.position

theorem codeAhead_lt (hr : program[frame.function]? = some routine)
    (hop : routine.ops[frame.position]? = some op) (hfunction : frame'.function = frame.function)
    (hposition : frame.position < frame'.position) :
    codeAhead program frame' < codeAhead program frame := by
  have hlt : frame.position < routine.ops.size := (Array.getElem?_eq_some_iff.mp hop).1
  rw [codeAhead, codeAhead, hfunction, hr, Option.elim_some]
  omega

end Progress

/-! ### Every invocation has a result -/

theorem exists_evaluate {program : Program} (hforward : program.Forward) (limits : Limits)
    (live : Nat) (frame : Frame) (stack : Stack Value) :
    ∃ fuel result, evaluate program limits fuel live frame stack = some result := by
  -- first the calls that are left, then the code that is left
  induction hcalls : limits.callDepth - live using Nat.strongRecOn
    generalizing live frame stack with
  | ind calls ihcalls =>
  induction hcode : codeAhead program frame using Nat.strongRecOn generalizing frame stack with
  | ind code ihcode =>
    cases hturn : turn program limits live frame stack with
    | fail failure => exact ⟨1, .error failure, by rw [evaluate_succ, hturn]; rfl⟩
    | leave => exact ⟨1, .ok stack, by rw [evaluate_succ, hturn]; rfl⟩
    | proceed frame' stack' =>
      obtain ⟨routine, op, hr, hop, hp⟩ := turn_eq_proceed_iff.mp hturn
      have hposition := (hforward routine (Array.mem_of_getElem? hr)).position_lt hop hp
      have hless := codeAhead_lt hr hop hp.frame_eq.1 hposition
      obtain ⟨fuel, result, hfuel⟩ := ihcode _ (hcode ▸ hless) frame' stack' rfl
      exact ⟨fuel + 1, result, by rw [evaluate_succ, hturn]; exact hfuel⟩
    | call inner =>
      obtain ⟨hlive, routine, callee, -, hr, hop, -, -⟩ := turn_eq_call_iff.mp hturn
      have hless : codeAhead program frame.advance < codeAhead program frame :=
        codeAhead_lt hr hop rfl (Nat.lt_succ_self _)
      obtain ⟨fuel, returned, hinner⟩ := ihcalls (limits.callDepth - (live + 1)) (by omega)
        (live + 1) inner stack rfl
      refine exists_evaluate_of_call hturn hinner ?_
      intro stack' _
      exact ihcode _ (hcode ▸ hless) frame.advance stack' rfl

/-! ### Whole executions -/

namespace Machine

/-- **Forward branches terminate.**  If every branch of a program leads to a later position, every
execution of it ends, whatever it calls, under any limits. -/
theorem forward_program_ends {m : Machine} (h : m.program.Forward) (entry : Nat)
    (arguments : List Value) : ∃ outcome, m.Ends entry arguments outcome := by
  cases hstart : (start m.program m.limits entry arguments).transition with
  | halt outcome => exact ⟨outcome, ends_of_start_halt hstart⟩
  | next s =>
    obtain ⟨routine, -, -, -, -, -, -, rfl⟩ := start_eq_next_iff.mp hstart
    obtain ⟨fuel, result, hresult⟩ := exists_evaluate h m.limits 1
      (.fresh entry 0 routine.slots) (.ofList arguments)
    have hends := endsFrom_of_evaluate (s := ⟨_, _, .empty⟩) rfl hresult
    exact ⟨_, (ends_iff_of_start hstart).mpr hends⟩

def factorial : Machine where
  definitions := Catalog.factorial.definitions
  program :=
    #[{ ops := #[.store 0, .load 0, .push (.integer 0), .binary (.compare .equal),
          .branchIf false 7, .push (.integer 1), .exit, .load 0, .load 0, .push (.integer 1),
          .binary (.integer .subtract), .call 0, .binary (.integer .multiply)],
        inputs := [.integer], outputs := [.integer], slots := 1 }]
  validated := rfl

/-- Below zero the recursion never comes to its base case, and yet it ends. -/
theorem factorial_ends_below_zero :
    factorial.program.Forward ∧ ∃ outcome, factorial.Ends 0 [.integer (-1)] outcome := by
  have hforward : factorial.program.Forward := by decide
  exact ⟨hforward, forward_program_ends hforward 0 [.integer (-1)]⟩

end Machine

end StackMachine
