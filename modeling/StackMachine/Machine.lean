import StackMachine.Execution.Run
import StackMachine.Validation

/-!
# Machines

A machine is a program that passed validation, with the limits under which it is executed.  It
keeps the definitions it was made from.  Executions share nothing: each starts on a stack of its
own, and the machine is the same afterwards.
-/

namespace StackMachine

structure Machine where
  definitions : List Definition
  program : Program
  limits : Limits := {}
  validated : validate definitions = .ok program

namespace Machine

def ofDefinitions (definitions : List Definition) : Except Fault Machine :=
  match h : validate definitions with
  | .ok program => .ok { definitions := definitions, program := program, validated := h }
  | .error fault => .error fault

/-- What validation accepts makes a machine. -/
theorem exists_ofDefinitions {definitions : List Definition} {program : Program}
    (h : validate definitions = .ok program) :
    ∃ m, ofDefinitions definitions = .ok m ∧ m.program = program := by
  unfold ofDefinitions
  split
  · rename_i accepted haccepted
    exact ⟨_, rfl, Except.ok.inj (haccepted.symm.trans h)⟩
  · rename_i fault hfault
    cases hfault.symm.trans h

def withLimits (m : Machine) (limits : Limits) : Machine := { m with limits := limits }

/-- Execute a function on arguments, with the events on the way. -/
def trace (m : Machine) (fuel entry : Nat) (arguments : List Value) :
    Array Event × Option Outcome :=
  record m.program m.limits #[] fuel (start m.program m.limits entry arguments)

def call (m : Machine) (fuel entry : Nat) (arguments : List Value) : Option Outcome :=
  execute m.program m.limits fuel entry arguments

/-- Execute the first function, on no arguments. -/
def callFirst (m : Machine) (fuel : Nat) : Option Outcome :=
  m.call fuel 0 []

end Machine

end StackMachine
