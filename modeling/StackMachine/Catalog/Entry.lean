import StackMachine.Function

/-!
# Entries of the catalog

A catalog entry is a program with a name, a sentence on what it is for, and runs of its first
function that it is meant to pass.
-/

namespace StackMachine.Catalog

/-- A run of the first function: what it is given and what it must return. -/
structure Case where
  arguments : List Value
  expected : List Value
  deriving DecidableEq

inductive Category where
  | arithmetic
  | loop
  | recursive
  /-- Refused by validation. -/
  | invalid
  /-- Accepted by validation, and stopped by a fault while running. -/
  | runtime
  deriving DecidableEq

def Category.name : Category → String
  | .arithmetic => "Arithmetic"
  | .loop => "Loop"
  | .recursive => "Recursive"
  | .invalid => "Invalid"
  | .runtime => "Runtime"

structure Entry where
  name : String
  intent : String
  category : Category
  definitions : List Definition
  /-- None for programs that are meant to fail. -/
  cases : List Case
  deriving DecidableEq

def Case.ofIntegers (arguments : List Int64) (expected : Value) : Case :=
  ⟨arguments.map .integer, [expected]⟩

end StackMachine.Catalog
