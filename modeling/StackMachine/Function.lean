import StackMachine.Op

/-!
# Functions

A function has code, the types of its inputs and outputs, and a number of local slots.  It exists
in two forms: as a `Definition`, whose code is raw instructions, and as a `Routine`, whose code is
operations. Validation turns the first into the second.

Inputs are taken from the top of the stack and outputs are left there; in both lists of types the
first belongs to the deepest value.
-/

namespace StackMachine

/-- A function as it is handed over. -/
structure Definition where
  code : List Instruction
  inputs : List ValueType
  outputs : List ValueType
  slots : Nat
  deriving DecidableEq

/-- A function as it is run. -/
structure Routine where
  ops : Array Op
  inputs : List ValueType
  outputs : List ValueType
  slots : Nat
  deriving DecidableEq

/-- The functions of a program, called by index. -/
abbrev Program := Array Routine

def Definition.ofOps (ops : List Op) (inputs outputs : List ValueType) (slots : Nat) :
    Definition where
  code := ops.map Op.encode
  inputs := inputs
  outputs := outputs
  slots := slots

def Routine.encode (r : Routine) : Definition :=
  .ofOps r.ops.toList r.inputs r.outputs r.slots

end StackMachine
