import StackMachine.Execution.Effect
import StackMachine.Proofs.Check
import StackMachine.Proofs.Stack

/-!
# The effect of an operation as a relation

`perform` computes what an operation does.  `Proceeds` lists the ways in which it can go well
inside one invocation, one rule for each operation, and `perform_eq_proceed_iff` says that these
are all.  In the rules the values that an operation pops stand on the stack by name, so that
whoever takes a `Proceeds` apart has them at hand and need not look into `perform` again.

* `popAbove_eq_ok_iff`, `popTyped_eq_ok_iff`, `pushBelow_eq_ok_iff`: the checked accesses.
* `perform_eq_proceed_iff`, `perform_eq_call_iff`, `perform_eq_exit_iff`: what follows an
  operation.
* `Proceeds.frame_eq`, `Proceeds.position_eq`, `Proceeds.base_le`, `Proceeds.size_le`: what an
  operation does not change.
* `perform_ne_stuck`: an operation whose slot exists is never stuck.
-/

namespace StackMachine

/-! ### Checked access to the stack -/

section Access

variable {limit base : Nat} {site : Site} {stack rest : Stack Value} {value : Value}

theorem popAbove_empty :
    popAbove site base .empty = .error (.fault (.tooFewValues site 1 0)) := rfl

theorem popAbove_push :
    popAbove site base (rest.push value) =
      if base ≤ rest.size then .ok (value, rest) else .error (.fault (.tooFewValues site 1 0)) := by
  simp only [popAbove, Stack.pop?_push, Stack.size_push, Nat.lt_succ_iff]

theorem popAbove_eq_ok_iff :
    popAbove site base stack = .ok (value, rest) ↔ stack = rest.push value ∧ base ≤ rest.size := by
  obtain rfl | ⟨v, r, rfl⟩ := stack.eq_empty_or_push
  · rw [popAbove_empty]
    simp [eq_comm (a := Stack.empty)]
  · rw [popAbove_push, Stack.push_inj]
    split
    · rename_i hb
      rw [Except.ok.injEq, Prod.mk.injEq]
      constructor
      · rintro ⟨rfl, rfl⟩
        exact ⟨⟨rfl, rfl⟩, hb⟩
      · rintro ⟨⟨rfl, rfl⟩, -⟩
        exact ⟨rfl, rfl⟩
    · rename_i hb
      constructor
      · intro h
        cases h
      · rintro ⟨⟨rfl, rfl⟩, h⟩
        exact absurd h hb

theorem popAbove_ne_stuck : popAbove site base stack ≠ .error .stuck := by
  obtain rfl | ⟨v, r, rfl⟩ := stack.eq_empty_or_push
  · simp [popAbove_empty]
  · rw [popAbove_push]
    split <;> simp

theorem popTyped_eq_ok_iff {t : ValueType} {x : t.Carrier} :
    popTyped t site base stack = .ok (x, rest) ↔
      stack = rest.push (.of t x) ∧ base ≤ rest.size := by
  rw [popTyped, bind_eq_ok_iff]
  constructor
  · rintro ⟨⟨value, below⟩, hpop, h⟩
    cases hx : value.as? t with
    | none => simp [hx, throw, throwThe, MonadExceptOf.throw] at h
    | some y =>
      simp only [hx, pure, Except.pure, Except.ok.injEq, Prod.mk.injEq] at h
      obtain ⟨rfl, rfl⟩ := h
      rw [Value.of_as? hx]
      exact popAbove_eq_ok_iff.mp hpop
  · intro h
    refine ⟨(.of t x, rest), popAbove_eq_ok_iff.mpr h, ?_⟩
    simp [pure, Except.pure]

theorem popTyped_ne_stuck {t : ValueType} : popTyped t site base stack ≠ .error .stuck := by
  rw [popTyped, Ne, bind_eq_error_iff]
  rintro (h | ⟨⟨value, below⟩, -, h⟩)
  · exact popAbove_ne_stuck h
  · cases hx : value.as? t <;>
      simp [hx, pure, Except.pure, throw, throwThe, MonadExceptOf.throw] at h

theorem pushBelow_eq_ok_iff {result : Stack Value} :
    pushBelow limit site value stack = .ok result ↔
      result = stack.push value ∧ stack.size < limit := by
  unfold pushBelow
  by_cases h : stack.size < limit
  · simp [h, eq_comm]
  · simp [h]

theorem pushBelow_ne_stuck : pushBelow limit site value stack ≠ .error .stuck := by
  unfold pushBelow
  split <;> simp

end Access

/-! ### Operations that proceed -/

/-- An operation takes a frame, already moved past it, and a stack to another frame and stack. -/
inductive Proceeds (limits : Limits) (frame : Frame) :
    Op → Stack Value → Frame → Stack Value → Prop where
  | load {slot : Nat} {value : Value} {stack : Stack Value}
      (isSet : frame.slots[slot]? = some (some value)) (room : stack.size < limits.stackDepth) :
      Proceeds limits frame (.load slot) stack frame (stack.push value)
  | store {slot : Nat} {value : Value} {rest : Stack Value} (exists_slot : slot < frame.slots.size)
      (base_le : frame.base ≤ rest.size) :
      Proceeds limits frame (.store slot) (rest.push value)
        { frame with slots := frame.slots.set slot (some value) exists_slot } rest
  | branch {target : Nat} {stack : Stack Value} :
      Proceeds limits frame (.branch target) stack (frame.jump target) stack
  | branchIf {flag b : Bool} {target : Nat} {rest : Stack Value}
      (base_le : frame.base ≤ rest.size) :
      Proceeds limits frame (.branchIf flag target) (rest.push (.boolean b))
        (if b = flag then frame.jump target else frame) rest
  | push {value : Value} {stack : Stack Value} (room : stack.size < limits.stackDepth) :
      Proceeds limits frame (.push value) stack frame (stack.push value)
  | unary {o : UnaryOp} {a : o.type.Carrier} {rest : Stack Value}
      (base_le : frame.base ≤ rest.size) (room : rest.size < limits.stackDepth) :
      Proceeds limits frame (.unary o) (rest.push (.of o.type a)) frame
        (rest.push (.of o.type (o.apply a)))
  | binary {o : BinaryOp} {a b : o.operandType.Carrier} {rest : Stack Value}
      (base_le : frame.base ≤ rest.size) (room : rest.size < limits.stackDepth) :
      Proceeds limits frame (.binary o)
        ((rest.push (.of o.operandType a)).push (.of o.operandType b)) frame
        (rest.push (.of o.resultType (o.apply a b)))

variable {limits : Limits} {site : Site} {frame frame' : Frame} {stack stack' : Stack Value}
  {op : Op}

theorem proceeds_of_perform
    (h : perform limits site frame stack op = .ok (.proceed frame' stack')) :
    Proceeds limits frame op stack frame' stack' := by
  cases op with
  | load slot =>
    simp only [perform] at h
    split at h
    · rename_i value hv
      simp only [bind_eq_ok_iff, pushBelow_eq_ok_iff] at h
      obtain ⟨pushed, ⟨rfl, room⟩, h⟩ := h
      cases h
      exact .load hv room
    · cases h
    · cases h
  | store slot =>
    simp only [perform, bind_eq_ok_iff, Prod.exists, popAbove_eq_ok_iff] at h
    obtain ⟨value, rest, ⟨rfl, hb⟩, h⟩ := h
    split at h
    · rename_i hs
      cases h
      exact .store hs hb
    · cases h
  | call callee => cases h
  | exit => cases h
  | branch target =>
    cases h
    exact .branch
  | branchIf flag target =>
    simp only [perform, bind_eq_ok_iff, Prod.exists] at h
    obtain ⟨b, rest, hp, h⟩ := h
    obtain ⟨rfl, hb⟩ := popTyped_eq_ok_iff (t := .boolean).mp hp
    cases h
    exact .branchIf hb
  | push value =>
    simp only [perform, bind_eq_ok_iff, pushBelow_eq_ok_iff] at h
    obtain ⟨pushed, ⟨rfl, room⟩, h⟩ := h
    cases h
    exact .push room
  | unary o =>
    simp only [perform, bind_eq_ok_iff, Prod.exists, popTyped_eq_ok_iff, pushBelow_eq_ok_iff] at h
    obtain ⟨a, rest, ⟨rfl, hb⟩, pushed, ⟨rfl, room⟩, h⟩ := h
    cases h
    exact .unary hb room
  | binary o =>
    simp only [perform, bind_eq_ok_iff, Prod.exists, popTyped_eq_ok_iff, pushBelow_eq_ok_iff] at h
    -- the second operand lies on top and is popped first
    obtain ⟨b, upper, ⟨rfl, -⟩, a, rest, ⟨rfl, hb⟩, pushed, ⟨rfl, room⟩, h⟩ := h
    cases h
    exact .binary hb room

theorem perform_of_proceeds (h : Proceeds limits frame op stack frame' stack') :
    perform limits site frame stack op = .ok (.proceed frame' stack') := by
  cases h with
  | load isSet room =>
    simp only [perform, isSet]
    exact bind_eq_ok_iff.mpr ⟨_, pushBelow_eq_ok_iff.mpr ⟨rfl, room⟩, rfl⟩
  | store hs hb =>
    refine bind_eq_ok_iff.mpr ⟨_, popAbove_eq_ok_iff.mpr ⟨rfl, hb⟩, ?_⟩
    simp only [hs, dif_pos]
    rfl
  | branch => rfl
  | branchIf hb =>
    exact bind_eq_ok_iff.mpr ⟨_, popTyped_eq_ok_iff (t := .boolean).mpr ⟨rfl, hb⟩, rfl⟩
  | push room => exact bind_eq_ok_iff.mpr ⟨_, pushBelow_eq_ok_iff.mpr ⟨rfl, room⟩, rfl⟩
  | unary hb room =>
    refine bind_eq_ok_iff.mpr ⟨_, popTyped_eq_ok_iff.mpr ⟨rfl, hb⟩, ?_⟩
    exact bind_eq_ok_iff.mpr ⟨_, pushBelow_eq_ok_iff.mpr ⟨rfl, room⟩, rfl⟩
  | binary hb room =>
    refine bind_eq_ok_iff.mpr ⟨_, popTyped_eq_ok_iff.mpr ⟨rfl, Nat.le_succ_of_le hb⟩, ?_⟩
    refine bind_eq_ok_iff.mpr ⟨_, popTyped_eq_ok_iff.mpr ⟨rfl, hb⟩, ?_⟩
    exact bind_eq_ok_iff.mpr ⟨_, pushBelow_eq_ok_iff.mpr ⟨rfl, room⟩, rfl⟩

/-- **What proceeds, and how.**  An invocation goes on after an operation exactly as `Proceeds`
says. -/
theorem perform_eq_proceed_iff :
    perform limits site frame stack op = .ok (.proceed frame' stack') ↔
      Proceeds limits frame op stack frame' stack' :=
  ⟨proceeds_of_perform, perform_of_proceeds⟩

namespace Proceeds

/-- The invocation stays what it was: only its position and the content of its slots change. -/
theorem frame_eq (h : Proceeds limits frame op stack frame' stack') :
    frame'.function = frame.function ∧ frame'.base = frame.base ∧
      frame'.slots.size = frame.slots.size := by
  cases h with
  | load | branch | push | unary | binary => exact ⟨rfl, rfl, rfl⟩
  | store hs => exact ⟨rfl, rfl, Array.size_set hs⟩
  | branchIf => split <;> exact ⟨rfl, rfl, rfl⟩

/-- It goes on where it stands or where the operation branches to. -/
theorem position_eq (h : Proceeds limits frame op stack frame' stack') :
    frame'.position = frame.position ∨ op = .branch frame'.position ∨
      ∃ flag, op = .branchIf flag frame'.position := by
  cases h with
  | load | store | push | unary | binary => exact .inl rfl
  | branch => exact .inr (.inl rfl)
  | branchIf =>
    split
    · exact .inr (.inr ⟨_, rfl⟩)
    · exact .inl rfl

theorem base_le (h : Proceeds limits frame op stack frame' stack')
    (hbase : frame.base ≤ stack.size) : frame.base ≤ stack'.size := by
  cases h with
  | load | push => exact Nat.le_succ_of_le hbase
  | branch => exact hbase
  | store _ hb | branchIf hb => exact hb
  | unary hb | binary hb => exact Nat.le_succ_of_le hb

theorem size_le (h : Proceeds limits frame op stack frame' stack')
    (hsize : stack.size ≤ limits.stackDepth) : stack'.size ≤ limits.stackDepth := by
  cases h with
  | load _ room | push room | unary _ room | binary _ room => exact room
  | branch => exact hsize
  | store | branchIf => exact Nat.le_of_succ_le hsize

end Proceeds

/-! ### The other ways to go on -/

/-- Only calls and exits are passed on. -/
theorem perform_cases {flow : Flow} (h : perform limits site frame stack op = .ok flow) :
    (∃ callee, op = .call callee ∧ flow = .call callee) ∨ (op = .exit ∧ flow = .exit) ∨
      ∃ frame' stack', flow = .proceed frame' stack' := by
  cases op with
  | call callee =>
    cases h
    exact .inl ⟨callee, rfl, rfl⟩
  | exit =>
    cases h
    exact .inr (.inl ⟨rfl, rfl⟩)
  | load slot =>
    simp only [perform] at h
    split at h
    · obtain ⟨pushed, -, h⟩ := bind_eq_ok_iff.mp h
      cases h
      exact .inr (.inr ⟨_, _, rfl⟩)
    · cases h
    · cases h
  | store slot =>
    obtain ⟨⟨value, rest⟩, -, h⟩ := bind_eq_ok_iff.mp h
    simp only at h
    split at h
    · cases h
      exact .inr (.inr ⟨_, _, rfl⟩)
    · cases h
  | branch target =>
    cases h
    exact .inr (.inr ⟨_, _, rfl⟩)
  | branchIf flag target =>
    obtain ⟨popped, -, h⟩ := bind_eq_ok_iff.mp h
    cases h
    exact .inr (.inr ⟨_, _, rfl⟩)
  | push value =>
    obtain ⟨pushed, -, h⟩ := bind_eq_ok_iff.mp h
    cases h
    exact .inr (.inr ⟨_, _, rfl⟩)
  | unary o =>
    simp only [perform, bind_eq_ok_iff] at h
    obtain ⟨a, -, pushed, -, h⟩ := h
    cases h
    exact .inr (.inr ⟨_, _, rfl⟩)
  | binary o =>
    simp only [perform, bind_eq_ok_iff] at h
    obtain ⟨b, -, a, -, pushed, -, h⟩ := h
    cases h
    exact .inr (.inr ⟨_, _, rfl⟩)

theorem perform_eq_call_iff {callee : Nat} :
    perform limits site frame stack op = .ok (.call callee) ↔ op = .call callee := by
  constructor
  · intro h
    obtain ⟨c, rfl, hc⟩ | ⟨-, hc⟩ | ⟨f, s, hc⟩ := perform_cases h
    · cases hc
      rfl
    · cases hc
    · cases hc
  · rintro rfl
    rfl

theorem perform_eq_exit_iff :
    perform limits site frame stack op = .ok .exit ↔ op = .exit := by
  constructor
  · intro h
    obtain ⟨c, -, hc⟩ | ⟨rfl, -⟩ | ⟨f, s, hc⟩ := perform_cases h
    · cases hc
    · rfl
    · cases hc
  · rintro rfl
    rfl

/-- The only thing an operation can refer to in vain is a slot. -/
theorem perform_ne_stuck
    (h : ∀ slot, op = .load slot ∨ op = .store slot → slot < frame.slots.size) :
    perform limits site frame stack op ≠ .error .stuck := by
  cases op with
  | load slot =>
    have hs := h slot (.inl rfl)
    simp only [perform, Array.getElem?_eq_getElem hs]
    split
    · simp [bind_eq_error_iff, pushBelow_ne_stuck, pure, Except.pure]
    · simp
    · rename_i hn
      cases hn
  | store slot =>
    have hs := h slot (.inr rfl)
    simp [perform, bind_eq_error_iff, popAbove_ne_stuck, hs, pure, Except.pure]
  | call callee => simp [perform]
  | exit => simp [perform]
  | branch target => simp [perform]
  | branchIf flag target =>
    simp [perform, bind_eq_error_iff, popTyped_ne_stuck (t := .boolean), pure, Except.pure]
  | push value => simp [perform, bind_eq_error_iff, pushBelow_ne_stuck, pure, Except.pure]
  | unary o =>
    simp [perform, bind_eq_error_iff, popTyped_ne_stuck, pushBelow_ne_stuck, pure, Except.pure]
  | binary o =>
    simp [perform, bind_eq_error_iff, popTyped_ne_stuck, pushBelow_ne_stuck, pure, Except.pure]

end StackMachine
