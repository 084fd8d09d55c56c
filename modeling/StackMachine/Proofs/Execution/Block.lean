import Mathlib.Data.List.Infix
import StackMachine.Proofs.Execution.Path

/-!
# Code that stands at a position

`Routine.HasCode` says that some operations stand in the code of a function from a position on.  A
block of code can then be followed wherever it stands, on any stack and for any callers.

Two blocks are shared by several programs.  One tests a slot against zero: it is loaded, compared,
and the result decides on a branch.  Either the branch is taken (`Path.zero_test_taken`), or the
invocation goes on after the block (`Path.zero_test_passed`).  The other loads what a recursive call
is made on: a slot as it is, and a slot less one (`Path.load_and_decrement`).
-/

namespace StackMachine

/-- Some operations stand in the code of a function from a position on. -/
def Routine.HasCode (r : Routine) (position : Nat) (ops : List Op) : Prop :=
  ops <+: r.ops.toList.drop position

namespace Routine.HasCode

variable {r : Routine} {position : Nat} {op : Op} {first second : List Op}

theorem left (h : r.HasCode position (first ++ second)) : r.HasCode position first :=
  (List.prefix_append first second).trans h

theorem right (h : r.HasCode position (first ++ second)) :
    r.HasCode (position + first.length) second := by
  have hdrop := List.IsPrefix.drop h first.length
  rwa [List.drop_left, List.drop_drop] at hdrop

theorem fetch (h : r.HasCode position (op :: second)) : r.ops[position]? = some op := by
  obtain ⟨rest, hrest⟩ := h
  rw [← Array.getElem?_toList, ← Nat.add_zero position, ← List.getElem?_drop, ← hrest]
  rfl

theorem tail (h : r.HasCode position (op :: second)) : r.HasCode (position + 1) second := by
  have hsplit : r.HasCode position ([op] ++ second) := h
  exact hsplit.right

end Routine.HasCode

/-! ### Branches that are taken or not -/

section Branches

variable {limits : Limits} {frame : Frame} {rest : Stack Value} {target : Nat}

theorem Proceeds.branchIf_taken (flag : Bool) (h : frame.base ≤ rest.size) :
    Proceeds limits frame (.branchIf flag target) (rest.push (.boolean flag))
      (frame.jump target) rest := by
  have hpop : Proceeds limits frame (.branchIf flag target) (rest.push (.boolean flag)) _ rest :=
    .branchIf h
  rwa [if_pos rfl] at hpop

theorem Proceeds.branchIf_passed (flag : Bool) (h : frame.base ≤ rest.size) :
    Proceeds limits frame (.branchIf flag target) (rest.push (.boolean !flag)) frame rest := by
  have hpop : Proceeds limits frame (.branchIf flag target) (rest.push (.boolean !flag)) _ rest :=
    .branchIf h
  rwa [if_neg (by cases flag <;> decide)] at hpop

end Branches

/-! ### A test against zero -/

/-- Load a slot, compare it with zero, and branch on the result. -/
def zeroTest (slot : Nat) (flag : Bool) (target : Nat) : List Op :=
  [.load slot, .push (.integer 0), .binary (.compare .equal), .branchIf flag target]

section ZeroTest

variable {program : Program} {limits : Limits} {routine : Routine} {frame : Frame}
  {stack : Stack Value} {suspended : Stack Frame} {slot target : Nat} {flag : Bool} {i : Int64}

theorem Path.compare_zero (suspended : Stack Frame)
    (hr : program[frame.function]? = some routine)
    (hcode : routine.HasCode frame.position (zeroTest slot flag target))
    (hslot : frame.slots[slot]? = some (some (.integer i))) (hbase : frame.base ≤ stack.size)
    (hroom : stack.size + 2 ≤ limits.stackDepth) :
    Path program limits 3 ⟨stack, frame, suspended⟩
      ⟨stack.push (.boolean (decide (i = 0))), frame.jump (frame.position + 3), suspended⟩ := by
  have hone : stack.size < limits.stackDepth := by omega
  have hload : Next program limits ⟨stack, frame, suspended⟩
      ⟨stack.push (.integer i), frame.jump (frame.position + 1), suspended⟩ :=
    .of_proceeds hr hcode.fetch (.load hslot hone)
  have hpush : Next program limits
      ⟨stack.push (.integer i), frame.jump (frame.position + 1), suspended⟩
      ⟨(stack.push (.integer i)).push (.integer 0), frame.jump (frame.position + 2), suspended⟩ :=
    .of_proceeds hr hcode.tail.fetch (.push hroom)
  have hcompare : Next program limits
      ⟨(stack.push (.integer i)).push (.integer 0), frame.jump (frame.position + 2), suspended⟩
      ⟨stack.push (.boolean (decide (i = 0))), frame.jump (frame.position + 3), suspended⟩ :=
    .of_proceeds hr hcode.tail.tail.fetch (.binary (o := .compare .equal) hbase hone)
  exact .next hload (.next hpush (.single hcompare))

/-- The slot is what the branch asks for. -/
theorem Path.zero_test_taken (hr : program[frame.function]? = some routine)
    (hcode : routine.HasCode frame.position (zeroTest slot flag target))
    (hslot : frame.slots[slot]? = some (some (.integer i))) (hbase : frame.base ≤ stack.size)
    (hroom : stack.size + 2 ≤ limits.stackDepth) (hi : decide (i = 0) = flag) :
    Path program limits 4 ⟨stack, frame, suspended⟩ ⟨stack, frame.jump target, suspended⟩ := by
  have hcompare := Path.compare_zero suspended hr hcode hslot hbase hroom
  rw [hi] at hcompare
  exact hcompare.append (.single
    (.of_proceeds hr hcode.tail.tail.tail.fetch (.branchIf_taken flag hbase)))

/-- The slot is not what the branch asks for. -/
theorem Path.zero_test_passed (hr : program[frame.function]? = some routine)
    (hcode : routine.HasCode frame.position (zeroTest slot flag target))
    (hslot : frame.slots[slot]? = some (some (.integer i))) (hbase : frame.base ≤ stack.size)
    (hroom : stack.size + 2 ≤ limits.stackDepth) (hi : decide (i = 0) = !flag) :
    Path program limits 4 ⟨stack, frame, suspended⟩
      ⟨stack, frame.jump (frame.position + 4), suspended⟩ := by
  have hcompare := Path.compare_zero suspended hr hcode hslot hbase hroom
  rw [hi] at hcompare
  exact hcompare.append (.single
    (.of_proceeds hr hcode.tail.tail.tail.fetch (.branchIf_passed flag hbase)))

end ZeroTest

/-! ### Arguments of a recursive call -/

/-- Load a slot, and another less one. -/
def loadAndDecrement (kept counter : Nat) : List Op :=
  [.load kept, .load counter, .push (.integer 1), .binary (.integer .subtract)]

theorem Path.load_and_decrement {program : Program} {limits : Limits} {routine : Routine}
    {frame : Frame} {stack : Stack Value} {suspended : Stack Frame} {kept counter : Nat}
    {x i : Int64} (hr : program[frame.function]? = some routine)
    (hcode : routine.HasCode frame.position (loadAndDecrement kept counter))
    (hkept : frame.slots[kept]? = some (some (.integer x)))
    (hcounter : frame.slots[counter]? = some (some (.integer i)))
    (hbase : frame.base ≤ stack.size) (hroom : stack.size + 3 ≤ limits.stackDepth) :
    Path program limits 4 ⟨stack, frame, suspended⟩
      ⟨(stack.push (.integer x)).push (.integer (i - 1)), frame.jump (frame.position + 4),
        suspended⟩ := by
  have htwo : stack.size + 2 ≤ limits.stackDepth := Nat.le_of_succ_le hroom
  have hfirst : Next program limits ⟨stack, frame, suspended⟩
      ⟨stack.push (.integer x), frame.jump (frame.position + 1), suspended⟩ :=
    .of_proceeds hr hcode.fetch (.load hkept (Nat.le_of_succ_le htwo))
  have hsecond : Next program limits
      ⟨stack.push (.integer x), frame.jump (frame.position + 1), suspended⟩
      ⟨(stack.push (.integer x)).push (.integer i), frame.jump (frame.position + 2), suspended⟩ :=
    .of_proceeds hr hcode.tail.fetch (.load hcounter htwo)
  have hone : Next program limits
      ⟨(stack.push (.integer x)).push (.integer i), frame.jump (frame.position + 2), suspended⟩
      ⟨((stack.push (.integer x)).push (.integer i)).push (.integer 1),
        frame.jump (frame.position + 3), suspended⟩ :=
    .of_proceeds hr hcode.tail.tail.fetch (.push hroom)
  have hsubtract : Next program limits
      ⟨((stack.push (.integer x)).push (.integer i)).push (.integer 1),
        frame.jump (frame.position + 3), suspended⟩
      ⟨(stack.push (.integer x)).push (.integer (i - 1)), frame.jump (frame.position + 4),
        suspended⟩ :=
    .of_proceeds hr hcode.tail.tail.tail.fetch
      (.binary (o := .integer .subtract) (Nat.le_succ_of_le hbase) htwo)
  exact .next hfirst (.next hsecond (.next hone (.single hsubtract)))

end StackMachine
