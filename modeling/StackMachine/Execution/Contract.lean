import StackMachine.Execution.State

/-!
# Entering and leaving a function

A function may be entered if its inputs lie on top of the stack, and left if its outputs, and
nothing else, lie above its base.  The types are compared from the deepest value up, and the first
that differs is reported.  Neither check changes the stack: inputs and outputs stay where they
are.

The frame of a function that is entered needs memory for its slots.  How many a function may have is
not part of its contract, and is not checked before.  With too many the execution gets stuck.
-/

namespace StackMachine

/-- The first place where a value has another type than the one it should have. -/
structure Mismatch where
  position : Nat
  expected : ValueType
  found : ValueType
  deriving DecidableEq

/-- Compare values with types in order, the first pair having the given position. -/
def mismatchFrom? : Nat → List ValueType → List Value → Option Mismatch
  | position, type :: types, value :: values =>
    if value.type = type then mismatchFrom? (position + 1) types values
    else some ⟨position, type, value.type⟩
  | _, _, _ => none

namespace Routine

/-- Whether an invocation may begin: its inputs must all lie above `floor`. -/
def checkInputs (r : Routine) (function floor : Nat) (stack : Stack Value) : Except Failure Unit :=
  let required := r.inputs.length
  if stack.size < floor then .error .stuck
  else if stack.size - floor < required then
    .error (.fault (.tooFewValues ⟨function, 0⟩ required (stack.size - floor)))
  else
    match mismatchFrom? 0 r.inputs (stack.top required) with
    | some m => .error (.fault (.wrongArgumentType function m.position m.expected m.found))
    | none => .ok ()

def enter (r : Routine) (function floor : Nat) (stack : Stack Value) : Except Failure Frame :=
  (r.checkInputs function floor stack).map fun _ =>
    .fresh function (stack.size - r.inputs.length) r.slots

/-- As `enter`, in memory: there is no frame with too many slots. -/
def activate (r : Routine) (function floor : Nat) (stack : Stack Value) :
    Except Failure Frame :=
  if r.slots < Frame.slotLimit then r.enter function floor stack
  else do
    -- the contract comes first, and what breaks it is reported
    r.checkInputs function floor stack
    .error .stuck

/-- An entry is reported once the contract holds, before there is a frame. -/
def entryEvents (r : Routine) (function floor depth : Nat) (stack : Stack Value) : List Event :=
  match r.checkInputs function floor stack with
  | .ok () => [.entered function depth (stack.size - r.inputs.length)]
  | .error _ => []

/-- Whether an invocation may end: exactly its outputs must lie above its base. -/
def leave (r : Routine) (frame : Frame) (stack : Stack Value) : Except Failure Unit :=
  let expected := r.outputs.length
  if stack.size < frame.base then .error .stuck
  else if stack.size - frame.base ≠ expected then
    .error (.fault (.wrongOutputCount frame.function expected (stack.size - frame.base)))
  else
    match mismatchFrom? 0 r.outputs (stack.above frame.base) with
    | some m => .error (.fault (.wrongOutputType frame.function m.position m.expected m.found))
    | none => .ok ()

end Routine

end StackMachine
