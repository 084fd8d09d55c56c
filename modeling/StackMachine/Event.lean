import StackMachine.Fault
import StackMachine.Op

/-!
# Events

What validation and execution report while they work, one line of log for each event.
-/

namespace StackMachine

inductive Event where
  /-- A function passed validation. -/
  | validated (function instructions inputs outputs slots : Nat)
  /-- A function was entered.  `depth` counts the live invocations, this one included, and `base`
  the values below its inputs. -/
  | entered (function depth base : Nat)
  /-- An operation is about to be carried out. -/
  | dispatched (site : Site) (op : Op)
  /-- A function was left with its outputs. -/
  | left (function outputs : Nat)
  deriving DecidableEq

/-- The line of log for an event, level first. -/
def Event.line : Event → String
  | .validated function instructions inputs outputs slots =>
    "DEBUG validated function " ++ Decimal.ofNat function ++ ": " ++
      Decimal.ofNat instructions ++ " instructions, " ++ Decimal.ofNat inputs ++ " in, " ++
      Decimal.ofNat outputs ++ " out, " ++ Decimal.ofNat slots ++ " slots"
  | .entered function depth base =>
    "DEBUG enter function " ++ Decimal.ofNat function ++ " (depth " ++ Decimal.ofNat depth ++
      ", base " ++ Decimal.ofNat base ++ ")"
  | .dispatched site op =>
    "TRACE function " ++ Decimal.ofNat site.function ++ " at " ++ Decimal.ofNat site.position ++
      ": " ++ op.text
  | .left function outputs =>
    "DEBUG leave function " ++ Decimal.ofNat function ++ " with " ++ Decimal.ofNat outputs ++
      " value(s)"

end StackMachine
