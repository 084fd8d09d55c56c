import Mathlib.Data.Nat.Factorial.Basic
import StackMachine.Proofs.Execution.Block
import StackMachine.Proofs.Execution.Invocation
import StackMachine.Proofs.Execution.Termination
import StackMachine.Proofs.Operator

/-!
# Programs that call themselves

Two programs of the catalog compute by recursion: `power` multiplies by the base at each level, and
`factorial` by the number itself.  Both count a word down to zero, one by one.  A negative word is
no exception, it only takes longer: what counts is the word read without its sign.  So each level
is followed once, from the entry to the call, and from the return to the exit (`Power.nests`,
`Factorial.nests`), and the rest is what holds of any calls that are nested in one another.

The levels of `power` lie at the same height, because its arguments are gone when it calls itself.
Those of `factorial` leave one value each below the next, so that the room on the stack has to grow
with the depth.

The results are those of the integers, up to a multiple of `2^64`
(`Machine.recursive_programs_count_down`).
-/

namespace StackMachine

open scoped Nat

/-! ### Words without a sign -/

section Words

variable {i : Int64} {n : Nat}

theorem eq_zero_of_toNat (h : i.toUInt64.toNat = 0) : i = 0 := by
  rw [← i.toInt64_toUInt64, UInt64.toNat_inj.mp (h.trans UInt64.toNat_zero.symm)]
  rfl

theorem ne_zero_of_toNat (h : i.toUInt64.toNat = n + 1) : i ≠ 0 := by
  rintro rfl
  cases h

theorem toNat_pred (h : i.toUInt64.toNat = n + 1) : (i - 1).toUInt64.toNat = n := by
  have hone : (1 : Int64).toUInt64 ≤ i.toUInt64 := by
    rw [UInt64.le_iff_toNat_le, h]
    exact Nat.le_add_left 1 n
  rw [Int64.toUInt64_sub, UInt64.toNat_sub_of_le _ _ hone, h]
  rfl

theorem ofNat_toNat (i : Int64) : Int64.ofNat i.toUInt64.toNat = i :=
  Int64.toBitVec_inj.mp (BitVec.ofNat_toNat ..)

theorem toNat_le_iff (h : n < 2 ^ 63) :
    i.toUInt64.toNat ≤ n ↔ 0 ≤ i.toInt ∧ i.toInt ≤ n := by
  have hbits : (i.toInt % 2 ^ 64).toNat = i.toUInt64.toNat := bits_toInt i
  have hlow := Int64.le_toInt i
  have hhigh := Int64.toInt_lt i
  omega

end Words

/-! ### How deep a program goes -/

/-- The first function returns one value if so many invocations may be live at once, and otherwise
its calls become too deep. -/
structure Machine.ReturnsWithin (m : Machine) (depth : Nat) (arguments : List Value)
    (value : Value) : Prop where
  returns : depth ≤ m.limits.callDepth → m.Ends 0 arguments (.returned [value])
  tooDeep : m.limits.callDepth < depth →
    ∃ site, m.Ends 0 arguments (.failed (.fault (.callDepthExceeded site m.limits.callDepth)))

namespace Machine

variable {m : Machine} {depth n : Nat} {arguments : List Value} {value : Value}

theorem ReturnsWithin.exists_returned_iff (h : m.ReturnsWithin depth arguments value) :
    (∃ values, m.Ends 0 arguments (.returned values)) ↔ depth ≤ m.limits.callDepth := by
  constructor
  · rintro ⟨values, hreturns⟩
    refine Nat.le_of_not_lt fun hdeep => ?_
    obtain ⟨site, hfails⟩ := h.tooDeep hdeep
    cases hreturns.unique hfails
  · intro hdepth
    exact ⟨_, h.returns hdepth⟩

/-- The first invocation nests calls in one another, and it counts itself. -/
theorem returnsWithin_of_nests {Entered : Nat → State → Stack Value → Prop} {routine : Routine}
    (h : Nests m.program m.limits Entered) (hr : m.program[0]? = some routine)
    (hroom : arguments.length ≤ m.limits.stackDepth)
    (htypes : arguments.map Value.type = routine.inputs)
    (hslots : routine.slots < Frame.slotLimit)
    (hentered : Entered n ⟨.ofList arguments, .fresh 0 0 routine.slots, .empty⟩
      (.ofList [value])) :
    m.ReturnsWithin (n + 1) arguments value := by
  by_cases hzero : m.limits.callDepth = 0
  · have hfails : m.Ends 0 arguments _ :=
      ends_of_start_halt (start_eq_fault_iff.mpr (.tooDeep hr hroom hzero))
    exact ⟨fun hdepth => by omega, fun _ => ⟨⟨0, 0⟩, hzero ▸ hfails⟩⟩
  have hlength : routine.inputs.length = arguments.length := by rw [← htypes, List.length_map]
  have htop : ((Stack.ofList arguments).top routine.inputs.length).map Value.type =
      routine.inputs := by
    rw [hlength, Stack.top_ofList]
    exact htypes
  have hstart : (start m.program m.limits 0 arguments).transition =
      .next ⟨.ofList arguments, .fresh 0 0 routine.slots, .empty⟩ :=
    start_eq_next_iff.mpr
      ⟨routine, hr, hroom, Nat.pos_of_ne_zero hzero, Nat.le_of_eq hlength, htop, hslots, rfl⟩
  refine ⟨?_, ?_⟩
  · intro hdepth
    exact (ends_iff_of_start hstart).mpr ((h.returns hentered hdepth).endsFrom rfl)
  · intro hdeep
    obtain ⟨site, hfails⟩ := h.tooDeep hentered (Nat.pos_of_ne_zero hzero) hdeep
    exact ⟨site, (ends_iff_of_start hstart).mpr (hfails.endsFrom rfl)⟩

end Machine

/-- A function that returns one value may be left with it on top. -/
theorem Routine.leave_push {r : Routine} {frame : Frame} {rest : Stack Value} {value : Value}
    (hbase : frame.base = rest.size) (houtputs : r.outputs = [value.type]) :
    r.leave frame (rest.push value) = .ok () := by
  refine leave_eq_ok_iff.mpr ⟨?_, ?_⟩
  · rw [hbase, Stack.size_push]
    exact Nat.le_succ _
  · rw [hbase, Stack.above_size_push, houtputs]
    rfl

/-! ### Powers -/

def Machine.power : Machine where
  definitions := Catalog.power.definitions
  program :=
    #[{ ops := #[.call 1], inputs := [.integer, .integer], outputs := [.integer], slots := 0 },
      { ops := #[.store 1, .store 0, .load 1, .push (.integer 0), .binary (.compare .equal),
          .branchIf false 8, .push (.integer 1), .exit, .load 0, .load 1, .push (.integer 1),
          .binary (.integer .subtract), .call 1, .load 0, .binary (.integer .multiply)],
        inputs := [.integer, .integer], outputs := [.integer], slots := 2 }]
  validated := rfl

namespace Power

/-- The value of a base with an exponent that is read without its sign. -/
def value (x e : Int64) : Value := .integer (.ofInt (x.toInt ^ e.toUInt64.toNat))

theorem value_zero (x : Int64) : value x 0 = .integer 1 := by
  rw [value, show (0 : Int64).toUInt64.toNat = 0 from rfl, Int.pow_zero]
  rfl

theorem value_succ (x : Int64) {e : Int64} {n : Nat} (h : e.toUInt64.toNat = n + 1) :
    value x e = .integer (.ofInt (x.toInt ^ n) * x) := by
  rw [value, h, Int.pow_succ, Int64.ofInt_mul, Int64.ofInt_toInt]

/-- The recursive function at a position, with base and exponent in its slots. -/
def standing (position : Nat) (x e : Int64) (base : Nat) (stack : Stack Value)
    (suspended : Stack Frame) : State where
  stack := stack
  frame := ⟨1, position, #[some (.integer x), some (.integer e)], base⟩
  suspended := suspended

def beginning (x e : Int64) : State where
  stack := .ofList [.integer x, .integer e]
  frame := .fresh 0 0 0
  suspended := .empty

def opening (x e : Int64) (rest : Stack Value) (suspended : Stack Frame) : State where
  stack := (rest.push (.integer x)).push (.integer e)
  frame := .fresh 1 rest.size 2
  suspended := suspended

variable {limits : Limits} {e : Int64} {rest : Stack Value}

/-- The first two operations bring the arguments into the slots. -/
theorem path_store (x e : Int64) (rest : Stack Value) (suspended : Stack Frame) :
    Path Machine.power.program limits 2 (opening x e rest suspended)
      (standing 2 x e rest.size rest suspended) := by
  have h0 : Next Machine.power.program limits (opening x e rest suspended)
      ⟨rest.push (.integer x), ⟨1, 1, #[none, some (.integer e)], rest.size⟩, suspended⟩ :=
    .of_proceeds rfl rfl (.store Nat.one_lt_two (Nat.le_succ _))
  have h1 : Next Machine.power.program limits
      ⟨rest.push (.integer x), ⟨1, 1, #[none, some (.integer e)], rest.size⟩, suspended⟩
      (standing 2 x e rest.size rest suspended) :=
    .of_proceeds rfl rfl (.store Nat.zero_lt_two (Nat.le_refl _))
  exact .next h0 (.single h1)

/-- With exponent zero the function goes to its first exit, with one on the stack. -/
theorem path_exit (x : Int64) (suspended : Stack Frame)
    (hroom : rest.size + 2 ≤ limits.stackDepth) :
    Path Machine.power.program limits 7 (opening x 0 rest suspended)
      (standing 7 x 0 rest.size (rest.push (.integer 1)) suspended) := by
  have htest : Path Machine.power.program limits 4 (standing 2 x 0 rest.size rest suspended)
      (standing 6 x 0 rest.size rest suspended) :=
    .zero_test_passed rfl ⟨_, rfl⟩ rfl (Nat.le_refl _) hroom rfl
  have h6 : Next Machine.power.program limits (standing 6 x 0 rest.size rest suspended)
      (standing 7 x 0 rest.size (rest.push (.integer 1)) suspended) :=
    .of_proceeds rfl rfl (.push (Nat.lt_of_succ_lt hroom))
  exact ((path_store x 0 rest suspended).append htest).append (.single h6)

/-- With any other exponent it calls itself, on the base and one less. -/
theorem path_call (x : Int64) (suspended : Stack Frame) (he : e ≠ 0)
    (hroom : rest.size + 3 ≤ limits.stackDepth) :
    Path Machine.power.program limits 10 (opening x e rest suspended)
      (standing 12 x e rest.size ((rest.push (.integer x)).push (.integer (e - 1))) suspended) := by
  have htest : Path Machine.power.program limits 4 (standing 2 x e rest.size rest suspended)
      (standing 8 x e rest.size rest suspended) :=
    .zero_test_taken rfl ⟨_, rfl⟩ rfl (Nat.le_refl _) (Nat.le_of_succ_le hroom)
      (decide_eq_false he)
  have harguments : Path Machine.power.program limits 4
      (standing 8 x e rest.size rest suspended)
      (standing 12 x e rest.size ((rest.push (.integer x)).push (.integer (e - 1))) suspended) :=
    .load_and_decrement rfl ⟨_, rfl⟩ rfl rfl (Nat.le_refl _) hroom
  exact ((path_store x e rest suspended).append htest).append harguments

/-- After the call the result is multiplied by the base. -/
theorem path_multiply (x e r : Int64) (suspended : Stack Frame)
    (hroom : rest.size + 2 ≤ limits.stackDepth) :
    Path Machine.power.program limits 2
      (standing 13 x e rest.size (rest.push (.integer r)) suspended)
      (standing 15 x e rest.size (rest.push (.integer (r * x))) suspended) := by
  have h13 : Next Machine.power.program limits
      (standing 13 x e rest.size (rest.push (.integer r)) suspended)
      (standing 14 x e rest.size ((rest.push (.integer r)).push (.integer x)) suspended) :=
    .of_proceeds rfl rfl (.load rfl hroom)
  have h14 : Next Machine.power.program limits
      (standing 14 x e rest.size ((rest.push (.integer r)).push (.integer x)) suspended)
      (standing 15 x e rest.size (rest.push (.integer (r * x))) suspended) :=
    .of_proceeds rfl rfl
      (.binary (o := .integer .multiply) (Nat.le_refl _) (Nat.lt_of_succ_lt hroom))
  exact .next h13 (.single h14)

/-- A level of the recursion: the first function, or the one that calls itself. -/
inductive Entered (limits : Limits) : Nat → State → Stack Value → Prop where
  | first {x e : Int64} {n : Nat} (exponent : e.toUInt64.toNat = n) :
      Entered limits (n + 1) (beginning x e) (.ofList [value x e])
  | again {x e : Int64} {n : Nat} {rest : Stack Value} {suspended : Stack Frame}
      (exponent : e.toUInt64.toNat = n) (room : rest.size + 3 ≤ limits.stackDepth) :
      Entered limits n (opening x e rest suspended) (rest.push (value x e))

/-- **Each level but the last calls the next, and multiplies.** -/
theorem nests (h : 3 ≤ limits.stackDepth) :
    Nests Machine.power.program limits (Entered limits) where
  innermost := by
    intro s stack hs hlive
    cases hs with
    | @again x e _ rest suspended hexponent hroom =>
      obtain rfl := eq_zero_of_toNat hexponent
      rw [value_zero]
      refine (path_exit x suspended (Nat.le_of_succ_le hroom)).concludes rfl (.of_leave ?_)
      exact turn_eq_leave_iff.mpr ⟨_, rfl, .inr rfl, Routine.leave_push rfl rfl⟩
  outer := by
    intro n s stack hs hlive
    cases hs with
    | @first x e _ hexponent =>
      have hcall : (beginning x e).AboutToCall Machine.power.program (.fresh 1 0 2) :=
        ⟨_, 1, _, rfl, rfl, rfl, rfl⟩
      have hcallee : Entered limits n ((beginning x e).entering (.fresh 1 0 2))
          (Stack.empty.push (value x e)) :=
        @Entered.again limits x e n .empty _ hexponent h
      refine ⟨0, _, _, _, .refl _, rfl, hcall, hcallee, .of_leave ?_⟩
      exact turn_eq_leave_iff.mpr ⟨_, rfl, .inl rfl, rfl⟩
    | @again x e _ rest suspended hexponent hroom =>
      have hpath := path_call x suspended (ne_zero_of_toNat hexponent) hroom
      have hcall : State.AboutToCall (standing 12 x e rest.size
          ((rest.push (.integer x)).push (.integer (e - 1))) suspended)
          Machine.power.program (.fresh 1 rest.size 2) :=
        ⟨_, 1, _, rfl, rfl, rfl, Routine.activate_eq_ok_iff.mpr
          ⟨by decide, Nat.le_refl _, rfl, rfl⟩⟩
      have hpred := toNat_pred hexponent
      refine ⟨10, _, _, _, hpath, rfl, hcall, .again hpred hroom, ?_⟩
      rw [value_succ x hexponent, value, hpred]
      refine (path_multiply x e _ suspended (Nat.le_of_succ_le hroom)).concludes rfl (.of_leave ?_)
      exact turn_eq_leave_iff.mpr ⟨_, rfl, .inl rfl, Routine.leave_push rfl rfl⟩

end Power

/-! ### Factorials -/

namespace Factorial

/-- The factorial of a word that is read without its sign. -/
def value (i : Int64) : Value := .integer (.ofNat i.toUInt64.toNat !)

theorem value_succ {i : Int64} {n : Nat} (h : i.toUInt64.toNat = n + 1) :
    value i = .integer (i * .ofNat n !) := by
  rw [value, h, Nat.factorial_succ, Int64.ofNat_mul, ← h, ofNat_toNat]

/-- The function at a position, with its argument in the slot. -/
def standing (position : Nat) (i : Int64) (base : Nat) (stack : Stack Value)
    (suspended : Stack Frame) : State where
  stack := stack
  frame := ⟨0, position, #[some (.integer i)], base⟩
  suspended := suspended

def opening (i : Int64) (rest : Stack Value) (suspended : Stack Frame) : State where
  stack := rest.push (.integer i)
  frame := .fresh 0 rest.size 1
  suspended := suspended

variable {limits : Limits} {i : Int64} {rest : Stack Value}

theorem path_store (i : Int64) (rest : Stack Value) (suspended : Stack Frame) :
    Path Machine.factorial.program limits 1 (opening i rest suspended)
      (standing 1 i rest.size rest suspended) :=
  .single (.of_proceeds rfl rfl (.store Nat.zero_lt_one (Nat.le_refl _)))

/-- On zero the function goes to its first exit, with one on the stack. -/
theorem path_exit (suspended : Stack Frame) (hroom : rest.size + 2 ≤ limits.stackDepth) :
    Path Machine.factorial.program limits 6 (opening 0 rest suspended)
      (standing 6 0 rest.size (rest.push (.integer 1)) suspended) := by
  have htest : Path Machine.factorial.program limits 4 (standing 1 0 rest.size rest suspended)
      (standing 5 0 rest.size rest suspended) :=
    .zero_test_passed rfl ⟨_, rfl⟩ rfl (Nat.le_refl _) hroom rfl
  have h5 : Next Machine.factorial.program limits (standing 5 0 rest.size rest suspended)
      (standing 6 0 rest.size (rest.push (.integer 1)) suspended) :=
    .of_proceeds rfl rfl (.push (Nat.lt_of_succ_lt hroom))
  exact ((path_store 0 rest suspended).append htest).append (.single h5)

/-- On anything else it calls itself on one less, with its argument below. -/
theorem path_call (suspended : Stack Frame) (hi : i ≠ 0)
    (hroom : rest.size + 3 ≤ limits.stackDepth) :
    Path Machine.factorial.program limits 9 (opening i rest suspended)
      (standing 11 i rest.size ((rest.push (.integer i)).push (.integer (i - 1))) suspended) := by
  have htest : Path Machine.factorial.program limits 4 (standing 1 i rest.size rest suspended)
      (standing 7 i rest.size rest suspended) :=
    .zero_test_taken rfl ⟨_, rfl⟩ rfl (Nat.le_refl _) (Nat.le_of_succ_le hroom)
      (decide_eq_false hi)
  have harguments : Path Machine.factorial.program limits 4
      (standing 7 i rest.size rest suspended)
      (standing 11 i rest.size ((rest.push (.integer i)).push (.integer (i - 1))) suspended) :=
    .load_and_decrement rfl ⟨_, rfl⟩ rfl rfl (Nat.le_refl _) hroom
  exact ((path_store i rest suspended).append htest).append harguments

/-- After the call the argument is multiplied by the result. -/
theorem path_multiply (i r : Int64) (suspended : Stack Frame)
    (hroom : rest.size + 1 ≤ limits.stackDepth) :
    Path Machine.factorial.program limits 1
      (standing 12 i rest.size ((rest.push (.integer i)).push (.integer r)) suspended)
      (standing 13 i rest.size (rest.push (.integer (i * r))) suspended) :=
  .single (.of_proceeds rfl rfl (.binary (o := .integer .multiply) (Nat.le_refl _) hroom))

/-- A level of the recursion.  At most one value lies below it for each that waits. -/
inductive Entered : Nat → State → Stack Value → Prop where
  | intro {i : Int64} {n : Nat} {rest : Stack Value} {suspended : Stack Frame}
      (argument : i.toUInt64.toNat = n) (height : rest.size ≤ suspended.size) :
      Entered n (opening i rest suspended) (rest.push (value i))

/-- **Each level but the last calls the next, and multiplies.** -/
theorem nests (h : limits.callDepth + 2 ≤ limits.stackDepth) :
    Nests Machine.factorial.program limits Entered where
  innermost := by
    intro s stack hs hlive
    cases hs with
    | @intro i _ rest suspended hargument hheight =>
      have hroom : rest.size + 2 ≤ limits.stackDepth := by
        have hbelow : suspended.size < limits.callDepth := hlive
        omega
      obtain rfl := eq_zero_of_toNat hargument
      refine (path_exit suspended hroom).concludes rfl (.of_leave ?_)
      exact turn_eq_leave_iff.mpr ⟨_, rfl, .inr rfl, Routine.leave_push rfl rfl⟩
  outer := by
    intro n s stack hs hlive
    cases hs with
    | @intro i _ rest suspended hargument hheight =>
      have hroom : rest.size + 3 ≤ limits.stackDepth := by
        have hbelow : suspended.size < limits.callDepth := hlive
        omega
      have hpath := path_call suspended (ne_zero_of_toNat hargument) hroom
      have hcall : State.AboutToCall (standing 11 i rest.size
          ((rest.push (.integer i)).push (.integer (i - 1))) suspended)
          Machine.factorial.program (.fresh 0 (rest.size + 1) 1) :=
        ⟨_, 0, _, rfl, rfl, rfl, Routine.activate_eq_ok_iff.mpr
          ⟨by decide, Nat.le_succ _, rfl, rfl⟩⟩
      have hpred := toNat_pred hargument
      refine ⟨9, _, _, _, hpath, rfl, hcall, .intro hpred (Nat.succ_le_succ hheight), ?_⟩
      rw [value_succ hargument, value, hpred]
      refine (path_multiply i _ suspended (by omega)).concludes rfl (.of_leave ?_)
      exact turn_eq_leave_iff.mpr ⟨_, rfl, .inl rfl, Routine.leave_push rfl rfl⟩

end Factorial

/-! ### Whole executions -/

namespace Machine

theorem power_returnsWithin (limits : Limits) (hroom : 3 ≤ limits.stackDepth) (x e : Int64) :
    (power.withLimits limits).ReturnsWithin (e.toUInt64.toNat + 2) [.integer x, .integer e]
      (Power.value x e) :=
  returnsWithin_of_nests (m := power.withLimits limits) (Power.nests hroom) rfl
    (Nat.le_of_succ_le hroom) rfl (by decide : 0 < Frame.slotLimit) (.first rfl)

theorem factorial_returnsWithin (limits : Limits)
    (hroom : limits.callDepth + 2 ≤ limits.stackDepth) (i : Int64) :
    (factorial.withLimits limits).ReturnsWithin (i.toUInt64.toNat + 1) [.integer i]
      (Factorial.value i) :=
  returnsWithin_of_nests (m := factorial.withLimits limits) (Factorial.nests hroom) rfl
    (Nat.le_trans (Nat.le_add_left 1 _) (Nat.le_of_succ_le hroom)) rfl
    (by decide : 1 < Frame.slotLimit)
    (@Factorial.Entered.intro i _ .empty .empty rfl (Nat.le_refl 0))

/-- **The recursive programs compute modulo `2^64`, or become too deep.**  The exponent of `power`
and the argument of `factorial` are read without their sign.  With room for three values, `power`
returns the power if two invocations more than its exponent may be live at once; with room for two
values more than invocations, `factorial` returns the factorial if one more than its argument may.
Otherwise their calls become too deep.  Under the limits that hold unless others are given, an
exponent must lie between `0` and `1022`, and an argument of `factorial` between `0` and `1023`. -/
theorem recursive_programs_count_down :
    (∃ e m, Catalog.find? "power" = some e ∧ ofDefinitions e.definitions = .ok m ∧
      (∀ (limits : Limits) (x k : Int64), 3 ≤ limits.stackDepth →
        (m.withLimits limits).ReturnsWithin (k.toUInt64.toNat + 2) [.integer x, .integer k]
          (.integer (.ofInt (x.toInt ^ k.toUInt64.toNat)))) ∧
      ∀ x k : Int64, (∃ values, (m.withLimits {}).Ends 0 [.integer x, .integer k]
        (.returned values)) ↔ 0 ≤ k.toInt ∧ k.toInt ≤ 1022) ∧
    ∃ e m, Catalog.find? "factorial" = some e ∧ ofDefinitions e.definitions = .ok m ∧
      (∀ (limits : Limits) (k : Int64), limits.callDepth + 2 ≤ limits.stackDepth →
        (m.withLimits limits).ReturnsWithin (k.toUInt64.toNat + 1) [.integer k]
          (.integer (.ofNat k.toUInt64.toNat !))) ∧
      ∀ k : Int64, (∃ values, (m.withLimits {}).Ends 0 [.integer k] (.returned values)) ↔
        0 ≤ k.toInt ∧ k.toInt ≤ 1023 := by
  refine ⟨⟨Catalog.power, power, by decide, rfl, ?_, ?_⟩,
    Catalog.factorial, factorial, by decide, rfl, ?_, ?_⟩
  · intro limits x k hroom
    exact power_returnsWithin limits hroom x k
  · intro x k
    have hwithin := power_returnsWithin {} (by decide) x k
    rw [hwithin.exists_returned_iff]
    exact Nat.succ_le_succ_iff.trans (Nat.succ_le_succ_iff.trans (toNat_le_iff (by decide)))
  · intro limits k hroom
    exact factorial_returnsWithin limits hroom k
  · intro k
    have hwithin := factorial_returnsWithin {} (by decide) k
    rw [hwithin.exists_returned_iff]
    exact Nat.succ_le_succ_iff.trans (toNat_le_iff (by decide))

/-- The limits are those that the recursion needs, and then one less; and the first factorial that
does not fit into a word wraps around. -/
theorem recursive_programs_at_their_limits :
    (∃ e m, Catalog.find? "power" = some e ∧ ofDefinitions e.definitions = .ok m ∧
      (m.withLimits ⟨5, 3⟩).Ends 0 [.integer (-2), .integer 3] (.returned [.integer (-8)]) ∧
      ∃ site, (m.withLimits ⟨4, 3⟩).Ends 0 [.integer (-2), .integer 3]
        (.failed (.fault (.callDepthExceeded site 4)))) ∧
    ∃ e m, Catalog.find? "factorial" = some e ∧ ofDefinitions e.definitions = .ok m ∧
      (m.withLimits ⟨22, 24⟩).Ends 0 [.integer 21]
        (.returned [.integer (-4249290049419214848)]) ∧
      ∃ site, (m.withLimits ⟨22, 24⟩).Ends 0 [.integer (-21)]
        (.failed (.fault (.callDepthExceeded site 22))) := by
  obtain ⟨⟨e, m, he, hm, hpower, -⟩, e', m', he', hm', hfactorial, -⟩ :=
    recursive_programs_count_down
  refine ⟨⟨e, m, he, hm, ?_, ?_⟩, e', m', he', hm', ?_, ?_⟩
  · exact (hpower ⟨5, 3⟩ (-2) 3 (by decide)).returns (show 3 + 2 ≤ 5 by decide)
  · exact (hpower ⟨4, 3⟩ (-2) 3 (by decide)).tooDeep (show 4 < 3 + 2 by decide)
  · have hvalue : Int64.ofNat (21 !) = -4249290049419214848 := by decide
    have hreturns := (hfactorial ⟨22, 24⟩ 21 (by decide)).returns (show 21 + 1 ≤ 22 by decide)
    rw [show (21 : Int64).toUInt64.toNat = 21 from rfl, hvalue] at hreturns
    exact hreturns
  · have hdeep : 22 < (-21 : Int64).toUInt64.toNat + 1 := by decide
    exact (hfactorial ⟨22, 24⟩ (-21) (by decide)).tooDeep hdeep

end Machine

end StackMachine
