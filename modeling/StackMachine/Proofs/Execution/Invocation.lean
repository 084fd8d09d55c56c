import StackMachine.Proofs.Execution.Fault
import StackMachine.Proofs.Execution.Recursion

/-!
# An invocation from its beginning to its end

`Concludes program limits s result` says how the running invocation of `s` comes to its end: it
leaves a stack behind for those that wait, or it fails.  The rules are those of the recursive
evaluation, read along paths, so that what is proved of a function once can be used at each of its
calls.

* `Path.concludes`: the invocation goes on for some steps first.
* `Concludes.of_leave`, `Concludes.of_fails`: it ends with its next turn.
* `Concludes.of_call`, `Concludes.of_call_failed`: it waits for a callee, which concludes on its own
  with one frame more below it.
* `Concludes.endsFrom`: the execution ends with an invocation that nobody waits for.

A recursion that calls itself once at each level nests its calls in one another, and how many there
are is known from the start (`Nests`).  Such a recursion returns if as many invocations may be live
at once, and otherwise its calls become too deep; nothing else can happen (`Nests.returns`,
`Nests.tooDeep`).
-/

namespace StackMachine

variable {program : Program} {limits : Limits} {s t : State} {n : Nat} {inner : Frame}
  {stack : Stack Value} {result : Except Failure (Stack Value)}

def Concludes (program : Program) (limits : Limits) (s : State)
    (result : Except Failure (Stack Value)) : Prop :=
  ∃ n t, Path program limits n s t ∧
    (step program limits t).transition = conclude s.suspended result

theorem Path.concludes (h : Path program limits n s t) (hsuspended : t.suspended = s.suspended)
    (ht : Concludes program limits t result) : Concludes program limits s result := by
  obtain ⟨k, u, hpath, hend⟩ := ht
  rw [hsuspended] at hend
  exact ⟨n + k, u, h.append hpath, hend⟩

/-! ### Calls -/

namespace State

/-- The state after a call: the callee runs on the same stack, and its caller waits. -/
def entering (t : State) (inner : Frame) : State :=
  ⟨t.stack, inner, t.suspended.push t.frame.advance⟩

def resumed (t : State) (stack : Stack Value) : State :=
  ⟨stack, t.frame.advance, t.suspended⟩

/-- The next operation is a call, and the callee can be entered. -/
def AboutToCall (t : State) (program : Program) (inner : Frame) : Prop :=
  ∃ routine callee target, program[t.frame.function]? = some routine ∧
    routine.ops[t.frame.position]? = some (.call callee) ∧ program[callee]? = some target ∧
    target.activate callee t.frame.base t.stack = .ok inner

namespace AboutToCall

theorem turn_eq (h : t.AboutToCall program inner)
    (hlive : t.suspended.size + 1 < limits.callDepth) :
    turn program limits (t.suspended.size + 1) t.frame t.stack = .call inner := by
  obtain ⟨routine, callee, target, hr, hop, htarget, henter⟩ := h
  exact turn_eq_call_iff.mpr ⟨hlive, routine, callee, target, hr, hop, htarget, henter⟩

theorem turnFails (h : t.AboutToCall program inner)
    (hfull : limits.callDepth ≤ t.suspended.size + 1) :
    TurnFails program limits (t.suspended.size + 1) t.frame t.stack
      (.callDepthExceeded t.frame.site limits.callDepth) := by
  obtain ⟨routine, callee, target, hr, hop, -, -⟩ := h
  exact .tooDeep hr hop hfull

theorem next (h : t.AboutToCall program inner) (hlive : t.suspended.size + 1 < limits.callDepth) :
    Next program limits t (t.entering inner) := by
  rw [Next, transition_step, h.turn_eq hlive]
  rfl

end AboutToCall

end State

namespace Concludes

theorem of_leave (h : turn program limits (s.suspended.size + 1) s.frame s.stack = .leave) :
    Concludes program limits s (.ok s.stack) := by
  refine ⟨0, s, .refl s, ?_⟩
  rw [transition_step, h]
  rfl

theorem of_fails {fault : Fault}
    (h : TurnFails program limits (s.suspended.size + 1) s.frame s.stack fault) :
    Concludes program limits s (.error (.fault fault)) :=
  ⟨0, s, .refl s, h.halt⟩

/-- The callee concludes, and then the caller does. -/
theorem of_call (h : t.AboutToCall program inner)
    (hlive : t.suspended.size + 1 < limits.callDepth)
    (hcallee : Concludes program limits (t.entering inner) (.ok stack))
    (hcaller : Concludes program limits (t.resumed stack) result) :
    Concludes program limits t result := by
  obtain ⟨k, u, hinner, hback⟩ := hcallee
  obtain ⟨j, v, houter, hend⟩ := hcaller
  have hreturn : Next program limits u (t.resumed stack) := hback
  exact ⟨k + (j + 1) + 1, v, .next (h.next hlive) (hinner.append (.next hreturn houter)), hend⟩

/-- A callee that fails takes its caller with it. -/
theorem of_call_failed {failure : Failure} (h : t.AboutToCall program inner)
    (hlive : t.suspended.size + 1 < limits.callDepth)
    (hcallee : Concludes program limits (t.entering inner) (.error failure)) :
    Concludes program limits t (.error failure) := by
  obtain ⟨k, u, hinner, hend⟩ := hcallee
  exact ⟨k + 1, u, .next (h.next hlive) hinner, hend⟩

theorem endsFrom (h : Concludes program limits s result) (halone : s.suspended = .empty) :
    EndsFrom program limits s (.ofResult result) := by
  obtain ⟨k, t, hpath, hend⟩ := h
  rw [halone, conclude_empty] at hend
  exact ⟨k, t, hpath, hend⟩

end Concludes

/-! ### Calls that are nested in one another -/

/-- `Entered n s stack` is to say that an invocation has just been entered in `s` which nests `n`
calls in one another and leaves `stack` behind.  The innermost concludes without a call.  Any other
comes to a call, which nests one less, and concludes with what the callee leaves behind. -/
structure Nests (program : Program) (limits : Limits) (Entered : Nat → State → Stack Value → Prop) :
    Prop where
  innermost : ∀ {s stack}, Entered 0 s stack → s.suspended.size < limits.callDepth →
    Concludes program limits s (.ok stack)
  outer : ∀ {n s stack}, Entered (n + 1) s stack → s.suspended.size < limits.callDepth →
    ∃ k t inner answer, Path program limits k s t ∧ t.suspended = s.suspended ∧
      t.AboutToCall program inner ∧ Entered n (t.entering inner) answer ∧
      Concludes program limits (t.resumed answer) (.ok stack)

namespace Nests

variable {Entered : Nat → State → Stack Value → Prop}

/-- **A recursion returns** if all its calls may be live at once. -/
theorem returns (h : Nests program limits Entered) (hs : Entered n s stack)
    (hdepth : n + s.suspended.size + 1 ≤ limits.callDepth) :
    Concludes program limits s (.ok stack) := by
  induction n generalizing s stack with
  | zero => exact h.innermost hs (by omega)
  | succ n ih =>
    obtain ⟨k, t, inner, answer, hpath, hsuspended, hcall, hinner, hrest⟩ :=
      h.outer hs (by omega)
    have hsize : (t.entering inner).suspended.size = s.suspended.size + 1 := by
      rw [← hsuspended]
      rfl
    have hcallee := ih hinner (by omega)
    refine hpath.concludes hsuspended (.of_call hcall ?_ hcallee hrest)
    rw [hsuspended]
    omega

/-- **A recursion becomes too deep** otherwise. -/
theorem tooDeep (h : Nests program limits Entered) (hs : Entered n s stack)
    (hlive : s.suspended.size < limits.callDepth)
    (hdepth : limits.callDepth < n + s.suspended.size + 1) :
    ∃ site, Concludes program limits s
      (.error (.fault (.callDepthExceeded site limits.callDepth))) := by
  induction n generalizing s stack with
  | zero => omega
  | succ n ih =>
    obtain ⟨k, t, inner, answer, hpath, hsuspended, hcall, hinner, -⟩ := h.outer hs hlive
    have hsize : (t.entering inner).suspended.size = s.suspended.size + 1 := by
      rw [← hsuspended]
      rfl
    by_cases hroom : t.suspended.size + 1 < limits.callDepth
    · rw [hsuspended] at hroom
      obtain ⟨site, hcallee⟩ := ih hinner (by omega) (by omega)
      rw [← hsuspended] at hroom
      exact ⟨site, hpath.concludes hsuspended (.of_call_failed hcall hroom hcallee)⟩
    · have hfails := hcall.turnFails (Nat.le_of_not_lt hroom)
      exact ⟨t.frame.site, hpath.concludes hsuspended (.of_fails hfails)⟩

end Nests

end StackMachine
