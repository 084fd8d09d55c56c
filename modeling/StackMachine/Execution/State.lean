import StackMachine.Event
import StackMachine.Function
import StackMachine.Stack

/-!
# The state of an execution

All invocations of an execution share one stack of values.  Each live invocation has a frame, with
slots of its own and a base: the values below the base belong to its callers, and it may not pop
them.  The frame that is running stands apart from those that wait for it.
-/

namespace StackMachine

structure Limits where
  /-- How many invocations may be live at once, the first one included. -/
  callDepth : Nat := 1024
  /-- How many values the stack may hold. -/
  stackDepth : Nat := 4096
  deriving DecidableEq

/-- One live invocation of a function. -/
structure Frame where
  function : Nat
  /-- The position of the next operation. -/
  position : Nat
  /-- The local slots, empty until something is stored in them. -/
  slots : Array (Option Value)
  /-- How many values lie below those of this invocation. -/
  base : Nat
  deriving DecidableEq

namespace Frame

/-- The slots of a frame lie in one block of memory.  A slot takes sixteen bytes, and the bytes of
a block are counted by a signed word, so there are fewer than 2^59 slots in it. -/
def slotLimit : Nat := 0x8000000000000000 / 16

def fresh (function base slots : Nat) : Frame where
  function := function
  position := 0
  slots := Array.replicate slots none
  base := base

def site (f : Frame) : Site := ⟨f.function, f.position⟩

def advance (f : Frame) : Frame := { f with position := f.position + 1 }

def jump (f : Frame) (target : Nat) : Frame := { f with position := target }

end Frame

structure State where
  stack : Stack Value
  /-- The running frame. -/
  frame : Frame
  /-- The frames that wait for the running one, its caller on top. -/
  suspended : Stack Frame

inductive Failure where
  | fault (fault : Fault)
  /-- The code refers to a function or a slot that does not exist, or a frame to values that are
  not on the stack, or a function has more slots than fit into memory.  Code that passed validation
  never does the former, but validation does not count slots. -/
  | stuck
  deriving DecidableEq

inductive Outcome where
  /-- With the outputs of the function it started with, the deepest first. -/
  | returned (values : List Value)
  | failed (failure : Failure)
  deriving DecidableEq

inductive Transition where
  | next (state : State)
  | halt (outcome : Outcome)

/-- A piece of an execution: what it reports, and where it leads. -/
structure Step where
  events : List Event
  transition : Transition

namespace Step

def fail (failure : Failure) : Step := ⟨[], .halt (.failed failure)⟩

def after (event : Event) (s : Step) : Step := { s with events := event :: s.events }

end Step

end StackMachine
