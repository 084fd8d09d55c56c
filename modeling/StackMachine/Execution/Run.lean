import StackMachine.Execution.Contract
import StackMachine.Execution.Effect

/-!
# Running a program

An execution is a sequence of steps.  A step fetches the next operation of the running frame and
carries it out; a call suspends the frame and enters the callee, and an exit, or the end of the
code, leaves the function and resumes its caller.  When the last frame is left, the values on the
stack are the result.

A program may run forever, so `run` and `record` take a number of steps after which they give up
with `none`.  `run` only wants the outcome; `record` also collects the events.
-/

namespace StackMachine

/-- Suspend the running frame, which calls from `site`, and enter a function on the same stack.
The inputs of the callee must belong to the caller. -/
def State.invoke (s : State) (program : Program) (limits : Limits) (site : Site) (callee : Nat) :
    Step :=
  -- those who wait already, the caller, and the callee
  if limits.callDepth < s.suspended.size + 2 then
    .fail (.fault (.callDepthExceeded site limits.callDepth))
  else
    match program[callee]? with
    | none => .fail .stuck
    | some routine =>
      ⟨routine.entryEvents callee s.frame.base (s.suspended.size + 2) s.stack,
        match routine.activate callee s.frame.base s.stack with
        | .error failure => .halt (.failed failure)
        | .ok frame => .next ⟨s.stack, frame, s.suspended.push s.frame⟩⟩

/-- Leave the running frame and resume its caller, or end the execution if there is none. -/
def State.finish (s : State) (routine : Routine) : Step :=
  match routine.leave s.frame s.stack with
  | .error failure => .fail failure
  | .ok () =>
    let left := Event.left s.frame.function routine.outputs.length
    match s.suspended.pop? with
    | some (caller, suspended) => ⟨[left], .next ⟨s.stack, caller, suspended⟩⟩
    | none => ⟨[left], .halt (.returned s.stack.toList)⟩

/-- One operation, or the end of the code. -/
def step (program : Program) (limits : Limits) (s : State) : Step :=
  match program[s.frame.function]? with
  | none => .fail .stuck
  | some routine =>
    match routine.ops[s.frame.position]? with
    | none => s.finish routine
    | some op =>
      let site := s.frame.site
      let frame := s.frame.advance
      .after (.dispatched site op) <|
        match perform limits site frame s.stack op with
        | .error failure => .fail failure
        | .ok (.proceed frame stack) => ⟨[], .next ⟨stack, frame, s.suspended⟩⟩
        | .ok (.call callee) => { s with frame := frame }.invoke program limits site callee
        | .ok .exit => s.finish routine

/-- The beginning of an execution: the arguments lie on the stack, and a function is entered on
them. All of them belong to it, also those beyond its inputs. -/
def start (program : Program) (limits : Limits) (entry : Nat) (arguments : List Value) : Step :=
  match program[entry]? with
  | none => .fail (.fault (.noSuchEntry entry program.size))
  | some routine =>
    if limits.stackDepth < arguments.length then
      .fail (.fault (.stackOverflow ⟨entry, 0⟩ limits.stackDepth))
    else if limits.callDepth = 0 then
      .fail (.fault (.callDepthExceeded ⟨entry, 0⟩ 0))
    else
      let stack := Stack.ofList arguments
      ⟨routine.entryEvents entry 0 1 stack,
        match routine.activate entry 0 stack with
        | .error failure => .halt (.failed failure)
        | .ok frame => .next ⟨stack, { frame with base := 0 }, .empty⟩⟩

/-! ### Whole executions -/

/-- The outcome that is reached from a step in at most `fuel` further steps. -/
def run (program : Program) (limits : Limits) : Nat → Step → Option Outcome
  | _, ⟨_, .halt outcome⟩ => some outcome
  | 0, ⟨_, .next _⟩ => none
  | fuel + 1, ⟨_, .next s⟩ => run program limits fuel (step program limits s)

/-- As `run`, with all events so far. -/
def record (program : Program) (limits : Limits) (log : Array Event) :
    Nat → Step → Array Event × Option Outcome
  | _, ⟨events, .halt outcome⟩ => (log ++ events, some outcome)
  | 0, ⟨events, .next _⟩ => (log ++ events, none)
  | fuel + 1, ⟨events, .next s⟩ =>
    record program limits (log ++ events) fuel (step program limits s)

/-- Recording does not change the outcome. -/
theorem record_snd (program : Program) (limits : Limits) (log : Array Event) (fuel : Nat)
    (s : Step) : (record program limits log fuel s).2 = run program limits fuel s := by
  induction fuel generalizing log s with
  | zero => obtain ⟨events, _ | _⟩ := s <;> rfl
  | succ fuel ih =>
    obtain ⟨events, t | o⟩ := s
    · exact ih (log ++ events) (step program limits t)
    · rfl

def execute (program : Program) (limits : Limits) (fuel entry : Nat) (arguments : List Value) :
    Option Outcome :=
  run program limits fuel (start program limits entry arguments)

end StackMachine
