import StackMachine.Proofs.Execution.Block
import StackMachine.Proofs.Execution.Fault
import StackMachine.Proofs.Operator
import StackMachine.Proofs.Validation.Encoding
import StackMachine.Term

/-!
# Terms are computed

The listing of a term, in postfix order, is a program: it passes validation, and when it is run it
returns the value of the term (`Term.listing_returns_value`).  The value is the one on exact
integers (`Term.value`), where every node means its first operand, operator, second operand.

The listing of a subterm stands somewhere in the code and is carried out on some stack, so the
induction is about both: from any position where the listing stands and on any stack, the listing
pushes one value and leaves the rest alone, if there is room for as many values as `Term.need` says
(`Term.path`).  That number is exact.  With any less room, a push on the way overflows
(`Term.overflows`).
-/

namespace StackMachine

/-! ### The value of a term -/

def Value.ofExact : (t : ValueType) → t.Exact → Value
  | .boolean, b => .boolean b
  | .integer, n => .integer (.ofInt n)

theorem Value.ofExact_exact (t : ValueType) (x : t.Carrier) :
    ofExact t (t.exact x) = .of t x := by
  cases t with
  | boolean => rfl
  | integer => exact congrArg Value.integer (Int64.ofInt_toInt x)

namespace Term

variable {t : ValueType}

/-- What a term stands for: its operators are those on exact integers. -/
def exact {t : ValueType} : Term t → t.Exact
  | .constant x => t.exact x
  | .unary o a => o.exact a.exact
  | .binary o a b => o.exact a.exact b.exact

def value (e : Term t) : Value := .ofExact t e.exact

theorem exact_eq (e : Term t) : e.exact = t.exact e.eval := by
  induction e with
  | constant x => rfl
  | unary o a iha => rw [exact, iha, eval, o.exact_apply]
  | binary o a b iha ihb => rw [exact, iha, ihb, eval, o.exact_apply]

theorem value_eq (e : Term t) : e.value = .of t e.eval := by
  rw [value, exact_eq, Value.ofExact_exact]

end Term

/-! ### The listing passes validation -/

/-- An operation that refers to nothing is in scope wherever it stands. -/
theorem Op.InScope.of_none {op : Op} (h : op.index? = none) (s : Scope) (position : Nat) :
    op.InScope s position := by
  cases op with
  | load | store | call | branch | branchIf => cases h
  | exit | push | unary | binary => trivial

namespace Term

variable {t : ValueType}

/-- Listings refer to nothing. -/
theorem index?_of_mem_ops (e : Term t) : ∀ op ∈ e.ops, op.index? = none := by
  induction e with
  | constant x =>
    intro op hop
    obtain rfl := List.mem_singleton.mp hop
    rfl
  | unary o a iha =>
    intro op hop
    rcases List.mem_append.mp hop with hop | hop
    · exact iha op hop
    · obtain rfl := List.mem_singleton.mp hop
      rfl
  | binary o a b iha ihb =>
    intro op hop
    rcases List.mem_append.mp hop with hop | hop
    · rcases List.mem_append.mp hop with hop | hop
      · exact iha op hop
      · exact ihb op hop
    · obtain rfl := List.mem_singleton.mp hop
      rfl

def routine (e : Term t) : Routine where
  ops := e.ops.toArray
  inputs := []
  outputs := [t]
  slots := 0

/-- The code of the listing is what the instruction set has for it, and it is admissible
anywhere. -/
theorem code_matches (e : Term t) (s : Scope) :
    Matches (fun position i op => i.Admissible s position ∧ i.Means op) e.definition.code
      e.ops := by
  refine ⟨(List.length_map _).symm, ?_⟩
  intro position i hi
  obtain ⟨op, hop, rfl⟩ := Option.map_eq_some_iff.mp (List.getElem?_map.symm.trans hi)
  have hindex := e.index?_of_mem_ops op (List.mem_of_getElem? hop)
  exact ⟨op, hop, op.encode_admissible (.of_none hindex s _) (.of_none hindex)⟩

theorem validate_definition (e : Term t) : validate [e.definition] = .ok #[e.routine] := by
  rw [validate_eq_ok_iff]
  refine matches_cons_iff.mpr ⟨e.routine, [], rfl, ?_, matches_nil_iff.mpr rfl⟩
  refine ⟨List.cons_ne_nil _ _, ?_, rfl, rfl, rfl⟩
  exact e.code_matches _

end Term

/-! ### The listing pushes the value -/

namespace Term

variable {t : ValueType} {program : Program} {limits : Limits} {routine : Routine}

theorem one_le_need (e : Term t) : 1 ≤ e.need := by
  induction e with
  | constant x => exact Nat.le_refl 1
  | unary o a iha => exact iha
  | binary o a b iha ihb => exact Nat.le_trans iha (Nat.le_max_left _ _)

/-- **The listing pushes the value**, from any position where it stands and on any stack that
leaves room for it. -/
theorem path (e : Term t) (frame : Frame) (stack : Stack Value) (suspended : Stack Frame)
    (hr : program[frame.function]? = some routine)
    (hcode : routine.HasCode frame.position e.ops) (hbase : frame.base ≤ stack.size)
    (hroom : stack.size + e.need ≤ limits.stackDepth) :
    Path program limits e.ops.length ⟨stack, frame, suspended⟩
      ⟨stack.push (.of t e.eval), frame.jump (frame.position + e.ops.length), suspended⟩ := by
  induction e generalizing frame stack with
  | constant x => exact .single (.of_proceeds hr hcode.fetch (.push hroom))
  | unary o a iha =>
    have hneed := a.one_le_need
    have ha := iha frame stack hr hcode.left hbase hroom
    have hlast : Next program limits
        ⟨stack.push (.of _ a.eval), frame.jump (frame.position + a.ops.length), suspended⟩
        ⟨stack.push (.of _ (o.apply a.eval)),
          frame.jump (frame.position + a.ops.length + 1), suspended⟩ := by
      refine .of_proceeds hr hcode.right.fetch (.unary hbase ?_)
      simp only [need] at hroom
      omega
    rw [ops, List.length_append]
    exact ha.append (.single hlast)
  | binary o a b iha ihb =>
    have hneed := a.one_le_need
    simp only [need] at hroom
    have ha := iha frame stack hr hcode.left.left hbase (by omega)
    -- the left operand stays on the stack below the right one
    have hb := ihb (frame.jump (frame.position + a.ops.length)) (stack.push (.of _ a.eval)) hr
      hcode.left.right (Nat.le_succ_of_le hbase) (by rw [Stack.size_push]; omega)
    have hlast : Next program limits
        ⟨(stack.push (.of _ a.eval)).push (.of _ b.eval),
          frame.jump (frame.position + (a.ops ++ b.ops).length), suspended⟩
        ⟨stack.push (.of _ (o.apply a.eval b.eval)),
          frame.jump (frame.position + (a.ops ++ b.ops).length + 1), suspended⟩ :=
      .of_proceeds hr hcode.right.fetch (.binary hbase (by show _ < _; omega))
    rw [List.length_append, ← Nat.add_assoc] at hlast
    rw [ops, List.length_append, List.length_append, ← Nat.add_assoc, ← Nat.add_assoc]
    exact (ha.append hb).append (.single hlast)

/-- **With any less room the stack overflows.** -/
theorem overflows (e : Term t) (frame : Frame) (stack : Stack Value) (suspended : Stack Frame)
    (hr : program[frame.function]? = some routine)
    (hcode : routine.HasCode frame.position e.ops) (hbase : frame.base ≤ stack.size)
    (hfull : limits.stackDepth < stack.size + e.need) :
    ∃ site, EndsFrom program limits ⟨stack, frame, suspended⟩
      (.failed (.fault (.stackOverflow site limits.stackDepth))) := by
  induction e generalizing frame stack with
  | constant x =>
    have hfails : TurnFails program limits (suspended.size + 1) frame stack
        (.stackOverflow frame.site limits.stackDepth) :=
      .operation hr hcode.fetch (.pushFull (Nat.le_of_lt_succ hfull))
    exact ⟨frame.site, 0, _, .refl _, TurnFails.halt (s := ⟨stack, frame, suspended⟩) hfails⟩
  | unary o a iha => exact iha frame stack hr hcode.left hbase hfull
  | binary o a b iha ihb =>
    simp only [need] at hfull
    by_cases hroom : stack.size + a.need ≤ limits.stackDepth
    · -- the left operand has room, so it is the right one that has not
      obtain ⟨site, hends⟩ := ihb (frame.jump (frame.position + a.ops.length))
        (stack.push (.of _ a.eval)) hr hcode.left.right (Nat.le_succ_of_le hbase)
        (by rw [Stack.size_push]; omega)
      exact ⟨site, (a.path frame stack suspended hr hcode.left.left hbase hroom).endsFrom hends⟩
    · exact iha frame stack hr hcode.left.left hbase (by omega)

/-! ### Whole executions -/

def opening : State where
  stack := .ofList []
  frame := .fresh 0 0 0
  suspended := .empty

theorem size_opening_add (n : Nat) : opening.stack.size + n = n := Nat.zero_add n

theorem start_listing (e : Term t) (hdepth : 1 ≤ limits.callDepth) :
    (start #[e.routine] limits 0 []).transition = .next opening :=
  start_eq_next_iff.mpr
    ⟨e.routine, rfl, Nat.zero_le _, hdepth, Nat.zero_le _, rfl, (by decide : 0 < _), rfl⟩

theorem hasCode_listing (e : Term t) : e.routine.HasCode 0 e.ops :=
  List.prefix_refl e.ops

theorem listing_returns (e : Term t) (hroom : e.need ≤ limits.stackDepth) :
    EndsFrom #[e.routine] limits opening (.returned [.of t e.eval]) := by
  have hend : e.routine.ops[0 + e.ops.length]? = none := by
    rw [Nat.zero_add]
    exact Array.getElem?_eq_none_iff.mpr (Nat.le_refl e.ops.length)
  have hleave : e.routine.leave (opening.frame.jump (0 + e.ops.length))
      (opening.stack.push (.of t e.eval)) = .ok () :=
    Routine.leave_eq_ok_iff.mpr ⟨Nat.zero_le _, congrArg ([·]) (Value.type_of t e.eval)⟩
  rw [← size_opening_add e.need] at hroom
  refine (e.path opening.frame opening.stack .empty rfl e.hasCode_listing (Nat.zero_le _)
    hroom).endsFrom ⟨0, _, .refl _, halt_of_leave ?_ rfl⟩
  exact turn_eq_leave_iff.mpr ⟨e.routine, rfl, .inl hend, hleave⟩

theorem listing_overflows (e : Term t) (hfull : limits.stackDepth < e.need) :
    ∃ site, EndsFrom #[e.routine] limits opening
      (.failed (.fault (.stackOverflow site limits.stackDepth))) := by
  rw [← size_opening_add e.need] at hfull
  exact e.overflows opening.frame opening.stack .empty rfl e.hasCode_listing (Nat.zero_le _) hfull

/-- **Listings compute their terms.**  The listing of a term consists of the codes that the
instruction set has for it, and is a program that passes validation.  Under any limits that allow
an invocation, its execution returns the value of the term if the stack may hold as many values as
the term needs, and otherwise overflows the stack. -/
theorem listing_returns_value (e : Term t) :
    Matches (fun _ i op => i.Means op) e.definition.code e.ops ∧
    ∃ m, Machine.ofDefinitions [e.definition] = .ok m ∧
      ∀ limits : Limits, 1 ≤ limits.callDepth →
        (e.need ≤ limits.stackDepth →
          ∃ fuel, (m.withLimits limits).callFirst fuel = some (.returned [e.value])) ∧
        (limits.stackDepth < e.need →
          ∃ fuel site, (m.withLimits limits).callFirst fuel =
            some (.failed (.fault (.stackOverflow site limits.stackDepth)))) := by
  refine ⟨(e.code_matches (e.definition.scope 1 0)).imp And.right, ?_⟩
  obtain ⟨m, hm, hprogram⟩ := Machine.exists_ofDefinitions e.validate_definition
  refine ⟨m, hm, ?_⟩
  intro limits hdepth
  have hends : ∀ {outcome}, EndsFrom #[e.routine] limits opening outcome →
      (m.withLimits limits).Ends 0 [] outcome := by
    intro outcome h
    have hstart := e.start_listing hdepth
    rw [← hprogram] at h hstart
    exact (Machine.ends_iff_of_start (m := m.withLimits limits) hstart).mpr h
  refine ⟨?_, ?_⟩
  · intro hroom
    rw [e.value_eq]
    exact hends (e.listing_returns hroom)
  · intro hfull
    obtain ⟨site, hoverflow⟩ := e.listing_overflows hfull
    obtain ⟨fuel, hfuel⟩ := hends hoverflow
    exact ⟨fuel, site, hfuel⟩

def sumWithProduct : Term .integer :=
  .binary (.integer .add) (.constant 1)
    (.binary (.integer .multiply) (.constant 2) (.constant 3))

/-- The listing of `1 + 2 * 3` needs room for three values, and with two it overflows. -/
theorem sumWithProduct_needs_three :
    sumWithProduct.need = 3 ∧ ∃ m, Machine.ofDefinitions [sumWithProduct.definition] = .ok m ∧
      (∃ fuel, (m.withLimits ⟨1, 3⟩).callFirst fuel = some (.returned [.integer 7])) ∧
      ∃ fuel site, (m.withLimits ⟨1, 2⟩).callFirst fuel =
        some (.failed (.fault (.stackOverflow site 2))) := by
  have hneed : sumWithProduct.need = 3 := rfl
  have hvalue : sumWithProduct.value = .integer 7 := by decide
  obtain ⟨-, m, hm, hlimits⟩ := sumWithProduct.listing_returns_value
  obtain ⟨hreturns, -⟩ := hlimits ⟨1, 3⟩ (Nat.le_refl 1)
  obtain ⟨-, hoverflows⟩ := hlimits ⟨1, 2⟩ (Nat.le_refl 1)
  rw [hneed, hvalue] at hreturns
  rw [hneed] at hoverflows
  exact ⟨hneed, m, hm, hreturns (Nat.le_refl 3), hoverflows (Nat.lt_succ_self 2)⟩

end Term

end StackMachine
