import StackMachine.Catalog.Programs
import StackMachine.Proofs.Arithmetic
import StackMachine.Proofs.Execution.Block
import StackMachine.Proofs.Execution.Fault

/-!
# Euclid's algorithm in a loop

The program `gcd` of the catalog keeps two numbers in its slots.  At position 2, the head of its
loop, it compares the second with zero; unless they are equal it goes on with the second number and
the remainder of the first by it, and comes back to the head,

    (a, b) becomes (b, a mod b)

(`Gcd.loop_turns`).  This does not change the greatest common divisor.  A remainder is smaller than
the divisor, whatever the signs are, so the loop is left after finitely many turns, and then the
first number is the greatest common divisor up to its sign (`Gcd.exists_path_to_end`).  The loop
needs room for two values on the stack, and without it it does not get beyond its head
(`Gcd.loop_overflows`).

Nothing is assumed about the values that lie below those of the loop, so all of this holds for
executions on surplus arguments as well.  On two arguments the program returns what the loop ends
with (`Machine.gcd_returns_greatest_divisor`).
-/

namespace StackMachine

def Machine.gcd : Machine where
  definitions := Catalog.gcd.definitions
  program :=
    #[{ ops := #[.store 1, .store 0, .load 1, .push (.integer 0), .binary (.compare .equal),
          .branchIf true 13, .load 0, .load 1, .binary (.integer .modulus), .load 1, .store 0,
          .store 1, .branch 2, .load 0],
        inputs := [.integer, .integer], outputs := [.integer], slots := 2 }]
  validated := rfl

namespace Gcd

/-- The state at a position, with two numbers in the slots. -/
def standing (position : Nat) (a b : Int64) (stack : Stack Value) : State where
  stack := stack
  frame := ⟨0, position, #[some (.integer a), some (.integer b)], 0⟩
  suspended := .empty

variable {limits : Limits} {a b : Int64} {stack : Stack Value}

/-! ### The loop -/

/-- **One turn of the loop.** -/
theorem loop_turns (a : Int64) (hb : b ≠ 0) (hroom : stack.size + 2 ≤ limits.stackDepth) :
    Path Machine.gcd.program limits 11 (standing 2 a b stack)
      (standing 2 b (IntegerOp.modulus.apply a b) stack) := by
  have hone : stack.size < limits.stackDepth := by omega
  have htest : Path Machine.gcd.program limits 4 (standing 2 a b stack) (standing 6 a b stack) :=
    .zero_test_passed rfl ⟨_, rfl⟩ rfl (Nat.zero_le _) hroom (decide_eq_false hb)
  have h6 : Next Machine.gcd.program limits (standing 6 a b stack)
      (standing 7 a b (stack.push (.integer a))) := .of_proceeds rfl rfl (.load rfl hone)
  have h7 : Next Machine.gcd.program limits (standing 7 a b (stack.push (.integer a)))
      (standing 8 a b ((stack.push (.integer a)).push (.integer b))) :=
    .of_proceeds rfl rfl (.load rfl hroom)
  have h8 : Next Machine.gcd.program limits
      (standing 8 a b ((stack.push (.integer a)).push (.integer b)))
      (standing 9 a b (stack.push (.integer (IntegerOp.modulus.apply a b)))) :=
    .of_proceeds rfl rfl (.binary (o := .integer .modulus) (Nat.zero_le _) hone)
  have h9 : Next Machine.gcd.program limits
      (standing 9 a b (stack.push (.integer (IntegerOp.modulus.apply a b))))
      (standing 10 a b ((stack.push (.integer (IntegerOp.modulus.apply a b))).push (.integer b))) :=
    .of_proceeds rfl rfl (.load rfl hroom)
  have h10 : Next Machine.gcd.program limits
      (standing 10 a b ((stack.push (.integer (IntegerOp.modulus.apply a b))).push (.integer b)))
      (standing 11 b b (stack.push (.integer (IntegerOp.modulus.apply a b)))) :=
    .of_proceeds rfl rfl (.store Nat.zero_lt_two (Nat.zero_le _))
  have h11 : Next Machine.gcd.program limits
      (standing 11 b b (stack.push (.integer (IntegerOp.modulus.apply a b))))
      (standing 12 b (IntegerOp.modulus.apply a b) stack) :=
    .of_proceeds rfl rfl (.store Nat.one_lt_two (Nat.zero_le _))
  have h12 : Next Machine.gcd.program limits (standing 12 b (IntegerOp.modulus.apply a b) stack)
      (standing 2 b (IntegerOp.modulus.apply a b) stack) := .of_proceeds rfl rfl .branch
  exact htest.append (.next h6 (.next h7 (.next h8 (.next h9 (.next h10 (.next h11
    (.single h12)))))))

/-- The loop is left, and the first number is the result. -/
theorem loop_done (a : Int64) (hroom : stack.size + 2 ≤ limits.stackDepth) :
    Path Machine.gcd.program limits 5 (standing 2 a 0 stack)
      (standing 14 a 0 (stack.push (.integer a))) := by
  have hone : stack.size < limits.stackDepth := by omega
  have htest : Path Machine.gcd.program limits 4 (standing 2 a 0 stack) (standing 13 a 0 stack) :=
    .zero_test_taken rfl ⟨_, rfl⟩ rfl (Nat.zero_le _) hroom rfl
  have h13 : Next Machine.gcd.program limits (standing 13 a 0 stack)
      (standing 14 a 0 (stack.push (.integer a))) := .of_proceeds rfl rfl (.load rfl hone)
  exact htest.append (.single h13)

/-- Without room for two values the loop does not get beyond its head. -/
theorem loop_overflows (a b : Int64) (hfull : limits.stackDepth < stack.size + 2) :
    ∃ site, EndsFrom Machine.gcd.program limits (standing 2 a b stack)
      (.failed (.fault (.stackOverflow site limits.stackDepth))) := by
  by_cases hone : stack.size < limits.stackDepth
  · have h2 : Next Machine.gcd.program limits (standing 2 a b stack)
        (standing 3 a b (stack.push (.integer b))) := .of_proceeds rfl rfl (.load rfl hone)
    have hfails : Fails limits ⟨0, 3⟩ (standing 4 a b stack).frame (.push (.integer 0))
        (stack.push (.integer b)) _ := .pushFull (Nat.le_of_lt_succ hfull)
    exact ⟨⟨0, 3⟩, 1, _, .single h2, (TurnFails.operation rfl rfl hfails).halt⟩
  · have hfails : Fails limits ⟨0, 2⟩ (standing 3 a b stack).frame (.load 1) stack _ :=
      .loadFull rfl (Nat.le_of_not_lt hone)
    exact ⟨⟨0, 2⟩, 0, _, .refl _, (TurnFails.operation rfl rfl hfails).halt⟩

/-! ### It ends -/

/-- At the end of the code the execution is over, one way or the other. -/
theorem exists_halt_at_end (limits : Limits) (a b : Int64) (stack : Stack Value) :
    ∃ outcome,
      (step Machine.gcd.program limits (standing 14 a b stack)).transition = .halt outcome := by
  cases hstep : (step Machine.gcd.program limits (standing 14 a b stack)).transition with
  | halt outcome => exact ⟨outcome, rfl⟩
  | next s =>
    rcases Next.cases hstep with ⟨frame, stack', hturn, -⟩ | ⟨inner, hturn, -⟩ |
      ⟨caller, rest, -, hpush, -⟩
    · obtain ⟨routine, op, hr, hop, -⟩ := turn_eq_proceed_iff.mp hturn
      cases hr
      cases hop
    · obtain ⟨-, routine, callee, -, hr, hop, -⟩ := turn_eq_call_iff.mp hturn
      cases hr
      cases hop
    · exact absurd hpush.symm Stack.push_ne_empty

/-- **The loop ends with the greatest common divisor**, up to its sign, from any two numbers and on
any stack that leaves it room. -/
theorem exists_path_to_end (a b : Int64) (hroom : stack.size + 2 ≤ limits.stackDepth) :
    ∃ n g, Path Machine.gcd.program limits n (standing 2 a b stack)
        (standing 14 g 0 (stack.push (.integer g))) ∧
      g.toInt.natAbs = a.toInt.natAbs.gcd b.toInt.natAbs := by
  -- a turn keeps the greatest common divisor and makes the second number smaller
  induction hsize : b.toInt.natAbs using Nat.strongRecOn generalizing a b with
  | ind size ih =>
    by_cases hb : b = 0
    · subst hb
      have hzero : size = 0 := hsize.symm
      exact ⟨5, a, loop_done a hroom, by rw [hzero, Nat.gcd_zero_right]⟩
    · have hless := (IntegerOp.modulus_bounded a hb).2
      obtain ⟨n, g, hpath, hgcd⟩ := ih _ (hsize ▸ hless) b (IntegerOp.modulus.apply a b) rfl
      refine ⟨11 + n, g, (loop_turns a hb hroom).append hpath, ?_⟩
      rw [hgcd, IntegerOp.toInt_modulus a hb, Int.natAbs_tmod, hsize, Nat.gcd_comm, ← Nat.gcd_rec,
        Nat.gcd_comm]

/-- **The loop ends**, from any two numbers and on any stack. -/
theorem exists_endsFrom (limits : Limits) (a b : Int64) (stack : Stack Value) :
    ∃ outcome, EndsFrom Machine.gcd.program limits (standing 2 a b stack) outcome := by
  by_cases hroom : stack.size + 2 ≤ limits.stackDepth
  · obtain ⟨n, g, hpath, -⟩ := exists_path_to_end a b hroom
    obtain ⟨outcome, halt⟩ := exists_halt_at_end limits g 0 (stack.push (.integer g))
    exact ⟨outcome, hpath.endsFrom ⟨0, _, .refl _, halt⟩⟩
  · obtain ⟨site, hends⟩ := loop_overflows a b (Nat.lt_of_not_le hroom)
    exact ⟨_, hends⟩

/-! ### The arguments -/

theorem exists_integer_of_type {v : Value} (h : v.type = .integer) : ∃ i, v = .integer i := by
  cases v with
  | boolean b => cases h
  | integer i => exact ⟨i, rfl⟩

/-- Two integers lie on top, whatever is below. -/
theorem exists_integers (h : (stack.top 2).map Value.type = [.integer, .integer]) :
    ∃ a b rest, stack = (Stack.push (.integer a) rest).push (.integer b) := by
  rcases stack.eq_empty_or_push with rfl | ⟨y, below, rfl⟩
  · simp [Stack.top] at h
  rcases below.eq_empty_or_push with rfl | ⟨x, rest, rfl⟩
  · simp [Stack.top] at h
  obtain ⟨hx, hy⟩ : x.type = .integer ∧ y.type = .integer := by simpa [Stack.top] using h
  obtain ⟨a, rfl⟩ := exists_integer_of_type hx
  obtain ⟨b, rfl⟩ := exists_integer_of_type hy
  exact ⟨a, b, rest, rfl⟩

/-- The first two operations bring the arguments into the slots. -/
theorem enters_loop (a b : Int64) (rest : Stack Value) :
    Path Machine.gcd.program limits 2
      ⟨(rest.push (.integer a)).push (.integer b), .fresh 0 0 2, .empty⟩
      (standing 2 a b rest) := by
  have h0 : Next Machine.gcd.program limits
      ⟨(rest.push (.integer a)).push (.integer b), .fresh 0 0 2, .empty⟩
      ⟨rest.push (.integer a), ⟨0, 1, #[none, some (.integer b)], 0⟩, .empty⟩ :=
    .of_proceeds rfl rfl (.store Nat.one_lt_two (Nat.zero_le _))
  have h1 : Next Machine.gcd.program limits
      ⟨rest.push (.integer a), ⟨0, 1, #[none, some (.integer b)], 0⟩, .empty⟩
      (standing 2 a b rest) :=
    .of_proceeds rfl rfl (.store Nat.zero_lt_two (Nat.zero_le _))
  exact .next h0 (.single h1)

/-- On two integers alone the number that the loop ends with is returned. -/
theorem exists_returned (a b : Int64) (hroom : 2 ≤ limits.stackDepth) :
    ∃ g : Int64, EndsFrom Machine.gcd.program limits
        ⟨.ofList [.integer a, .integer b], .fresh 0 0 2, .empty⟩ (.returned [.integer g]) ∧
      g.toInt.natAbs = a.toInt.natAbs.gcd b.toInt.natAbs := by
  have hempty : (Stack.empty : Stack Value).size + 2 ≤ limits.stackDepth := hroom
  obtain ⟨n, g, hpath, hgcd⟩ := exists_path_to_end a b hempty
  have hleave : turn Machine.gcd.program limits 1
      (standing 14 g 0 (Stack.empty.push (.integer g))).frame
      (Stack.empty.push (.integer g)) = .leave :=
    turn_eq_leave_iff.mpr ⟨_, rfl, .inl rfl, rfl⟩
  have halt := halt_of_leave (s := standing 14 g 0 (Stack.empty.push (.integer g))) hleave rfl
  exact ⟨g, ((enters_loop a b .empty).append hpath).endsFrom ⟨0, _, .refl _, halt⟩, hgcd⟩

end Gcd

/-! ### Whole executions -/

namespace Machine

/-- **The program `gcd` returns the greatest common divisor.**  On any two words, and under any
limits that allow one invocation and two values, its execution ends and returns one integer: the
greatest common divisor of the two, up to its sign. -/
theorem gcd_returns_greatest_divisor :
    ∃ e m, Catalog.find? "gcd" = some e ∧ ofDefinitions e.definitions = .ok m ∧
      ∀ (limits : Limits) (a b : Int64), 1 ≤ limits.callDepth → 2 ≤ limits.stackDepth →
        ∃ g : Int64, (m.withLimits limits).Ends 0 [.integer a, .integer b]
            (.returned [.integer g]) ∧
          g.toInt.natAbs = a.toInt.natAbs.gcd b.toInt.natAbs := by
  refine ⟨Catalog.gcd, gcd, by decide, rfl, ?_⟩
  intro limits a b hdepth hroom
  obtain ⟨g, hends, hgcd⟩ := Gcd.exists_returned a b hroom
  have hstart : (start gcd.program limits 0 [.integer a, .integer b]).transition =
      .next ⟨.ofList [.integer a, .integer b], .fresh 0 0 2, .empty⟩ :=
    start_eq_next_iff.mpr ⟨_, rfl, hroom, hdepth, Nat.le_refl 2, rfl, by decide, rfl⟩
  exact ⟨g, (ends_iff_of_start (m := gcd.withLimits limits) hstart).mpr hends, hgcd⟩

/-- The least word and itself: their greatest common divisor is no word, but its opposite is. -/
theorem gcd_of_minValue :
    ∃ e m, Catalog.find? "gcd" = some e ∧ ofDefinitions e.definitions = .ok m ∧
      ∃ g : Int64, (m.withLimits ⟨1, 2⟩).Ends 0
          [.integer Int64.minValue, .integer Int64.minValue] (.returned [.integer g]) ∧
        g.toInt.natAbs = 2 ^ 63 := by
  obtain ⟨e, m, he, hm, hreturns⟩ := gcd_returns_greatest_divisor
  exact ⟨e, m, he, hm, hreturns ⟨1, 2⟩ Int64.minValue Int64.minValue (by decide) (by decide)⟩

end Machine

end StackMachine
