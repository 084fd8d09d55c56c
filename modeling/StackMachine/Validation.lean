import StackMachine.Event
import StackMachine.Function
import StackMachine.Validation.Scope

/-!
# Validation

A program may be run once every instruction of every function decodes and every function declares
at least one output.  Functions are checked in order, and the code of a function before its
outputs.

* `validate` stops at the first fault, and otherwise returns the decoded program.
* `diagnose` goes on and lists, for each instruction, the first thing wrong with it, and then a
  missing declaration of outputs.

Nothing is said here about the depth of the stack or the types of the values on it: these are
checked while running.
-/

namespace StackMachine

/-! ### One function -/

/-- Decode code from a position on, or stop at its first fault. -/
def Scope.checkCode (s : Scope) : Nat → List Instruction → Except Fault (List Op)
  | _, [] => .ok []
  | position, i :: rest => do
    let op ← s.check position i
    let ops ← s.checkCode (position + 1) rest
    return op :: ops

/-- The faults of code from a position on, at most one for each instruction. -/
def Scope.codeFaults (s : Scope) : Nat → List Instruction → List Fault
  | _, [] => []
  | position, i :: rest =>
    match s.check position i with
    | .ok _ => s.codeFaults (position + 1) rest
    | .error fault => fault :: s.codeFaults (position + 1) rest

namespace Definition

def scope (d : Definition) (functions index : Nat) : Scope where
  function := index
  length := d.code.length
  slots := d.slots
  functions := functions

def check (d : Definition) (functions index : Nat) : Except Fault Routine := do
  let ops ← (d.scope functions index).checkCode 0 d.code
  if d.outputs = [] then throw (.noOutputs index)
  return { ops := ops.toArray, inputs := d.inputs, outputs := d.outputs, slots := d.slots }

def faults (d : Definition) (functions index : Nat) : List Fault :=
  (d.scope functions index).codeFaults 0 d.code ++
    if d.outputs = [] then [.noOutputs index] else []

end Definition

/-! ### A whole program -/

/-- How far validation got: the functions that passed, and the fault that stopped it. -/
structure Survey where
  accepted : List Routine
  fault? : Option Fault
  deriving DecidableEq

def surveyFrom (functions : Nat) : Nat → List Definition → Survey
  | _, [] => ⟨[], none⟩
  | index, d :: rest =>
    match d.check functions index with
    | .error fault => ⟨[], some fault⟩
    | .ok routine =>
      let tail := surveyFrom functions (index + 1) rest
      ⟨routine :: tail.accepted, tail.fault?⟩

def survey (definitions : List Definition) : Survey :=
  surveyFrom definitions.length 0 definitions

/-- One event for each function that passed, also if a later one did not. -/
def Survey.events (s : Survey) : List Event :=
  s.accepted.mapIdx fun index r =>
    .validated index r.ops.size r.inputs.length r.outputs.length r.slots

/-- The decoded program, or its first fault. -/
def validate (definitions : List Definition) : Except Fault Program :=
  match (survey definitions).fault? with
  | some fault => .error fault
  | none => .ok (survey definitions).accepted.toArray

def faultsFrom (functions : Nat) : Nat → List Definition → List Fault
  | _, [] => []
  | index, d :: rest => d.faults functions index ++ faultsFrom functions (index + 1) rest

/-- Every fault of a program. -/
def diagnose (definitions : List Definition) : List Fault :=
  faultsFrom definitions.length 0 definitions

end StackMachine
