import StackMachine.Execution.Contract
import StackMachine.Proofs.Stack

/-!
# When a function may be entered or left

The two contracts compare types value by value and stop at the first that differs.  Here they are
stated for the values as a whole: a function may be entered if enough values lie above the floor
and those on top have the types of its inputs, and left if the values above its base have the
types of its outputs.

* `mismatchFrom?_eq_none_iff`: no mismatch means equal types.
* `mismatchFrom?_eq_some_iff`: what is reported is the first mismatch.
* `Routine.enter_eq_ok_iff`, `Routine.leave_eq_ok_iff`: the contracts.
* `Routine.enter_eq_fault_iff`, `Routine.leave_eq_fault_iff`: the faults of a broken contract.
* `Routine.enter_ne_stuck`, `Routine.leave_ne_stuck`: a frame whose values are all on the stack is
  never stuck.
* `Routine.activate_eq_ok_iff`, `Routine.activate_eq_fault_iff`, `Routine.activate_eq_stuck_iff`:
  memory makes a difference only if the contract holds, and then only for too many slots.
-/

namespace StackMachine

theorem mismatchFrom?_eq_none_iff {types : List ValueType} {values : List Value} {position : Nat}
    (h : values.length = types.length) :
    mismatchFrom? position types values = none ↔ values.map Value.type = types := by
  induction types generalizing values position with
  | nil =>
    obtain rfl := List.length_eq_zero_iff.mp h
    simp [mismatchFrom?]
  | cons type types ih =>
    cases values with
    | nil => simp at h
    | cons value values =>
      have hl : values.length = types.length := by simpa using h
      by_cases ht : value.type = type
      · simp [mismatchFrom?, ht, ih hl]
      · simp [mismatchFrom?, ht]

theorem exists_mismatch {types : List ValueType} {values : List Value} {position : Nat}
    (h : values.length = types.length) (htypes : values.map Value.type ≠ types) :
    ∃ m, mismatchFrom? position types values = some m :=
  Option.ne_none_iff_exists'.mp (mt (mismatchFrom?_eq_none_iff h).mp htypes)

structure Mismatch.IsFirst (types : List ValueType) (values : List Value) (m : Mismatch) :
    Prop where
  expected : types[m.position]? = some m.expected
  found : (values.map Value.type)[m.position]? = some m.found
  ne : m.found ≠ m.expected
  before : (values.map Value.type).take m.position = types.take m.position

theorem isFirst_of_mismatchFrom? {types : List ValueType} {values : List Value} {position : Nat}
    {m : Mismatch} (h : mismatchFrom? position types values = some m) :
    ∃ i, m.position = position + i ∧ Mismatch.IsFirst types values ⟨i, m.expected, m.found⟩ := by
  induction types generalizing values position with
  | nil => cases h
  | cons type types ih =>
    cases values with
    | nil => cases h
    | cons value values =>
      rw [mismatchFrom?] at h
      by_cases ht : value.type = type
      · rw [if_pos ht] at h
        obtain ⟨i, hposition, hfirst⟩ := ih h
        refine ⟨i + 1, by omega, hfirst.expected, hfirst.found, hfirst.ne, ?_⟩
        rw [List.map_cons, List.take_succ_cons, List.take_succ_cons, hfirst.before, ht]
      · rw [if_neg ht] at h
        obtain rfl := Option.some.inj h
        exact ⟨0, rfl, rfl, rfl, ht, rfl⟩

theorem isFirst_of_mismatch {types : List ValueType} {values : List Value} {m : Mismatch}
    (h : mismatchFrom? 0 types values = some m) : m.IsFirst types values := by
  obtain ⟨i, hposition, hfirst⟩ := isFirst_of_mismatchFrom? h
  obtain ⟨position, expected, found⟩ := m
  obtain rfl : position = i := hposition.trans (Nat.zero_add i)
  exact hfirst

namespace Mismatch.IsFirst

variable {types : List ValueType} {values : List Value} {m m' : Mismatch}

theorem getElem?_eq (h : m.IsFirst types values) {i : Nat} (hi : i < m.position) :
    (values.map Value.type)[i]? = types[i]? := by
  rw [← List.getElem?_take_of_lt hi, h.before, List.getElem?_take_of_lt hi]

theorem position_le (h : m.IsFirst types values) (h' : m'.IsFirst types values) :
    m.position ≤ m'.position := by
  refine Nat.le_of_not_lt fun hlt => h'.ne (Option.some.inj ?_)
  rw [← h'.found, ← h'.expected]
  exact h.getElem?_eq hlt

/-- There is only one first mismatch. -/
theorem unique (h : m.IsFirst types values) (h' : m'.IsFirst types values) : m = m' := by
  have hposition : m.position = m'.position :=
    Nat.le_antisymm (h.position_le h') (h'.position_le h)
  have hexpected : m.expected = m'.expected :=
    Option.some.inj (by rw [← h.expected, hposition, h'.expected])
  have hfound : m.found = m'.found :=
    Option.some.inj (by rw [← h.found, hposition, h'.found])
  cases m
  cases m'
  cases hposition
  cases hexpected
  cases hfound
  rfl

theorem types_ne (h : m.IsFirst types values) : values.map Value.type ≠ types := by
  intro heq
  refine h.ne (Option.some.inj ?_)
  rw [← h.found, ← h.expected, heq]

end Mismatch.IsFirst

/-- What is found in two lists of the same length is their first mismatch. -/
theorem mismatchFrom?_eq_some_iff {types : List ValueType} {values : List Value} {m : Mismatch}
    (h : values.length = types.length) :
    mismatchFrom? 0 types values = some m ↔ m.IsFirst types values := by
  constructor
  · exact isFirst_of_mismatch
  · intro hfirst
    have hexists : ∃ m', mismatchFrom? 0 types values = some m' := exists_mismatch h hfirst.types_ne
    obtain ⟨m', hm'⟩ := hexists
    rw [hm', hfirst.unique (isFirst_of_mismatch hm')]

namespace Routine

variable {r : Routine} {function floor : Nat} {frame : Frame} {stack : Stack Value}

theorem checkInputs_eq_ok_iff :
    r.checkInputs function floor stack = .ok () ↔
      floor + r.inputs.length ≤ stack.size ∧
        (stack.top r.inputs.length).map Value.type = r.inputs := by
  simp only [checkInputs]
  by_cases hfloor : stack.size < floor
  · simp only [hfloor, if_true]
    constructor
    · intro h
      cases h
    · rintro ⟨h, -⟩
      omega
  rw [if_neg hfloor]
  by_cases hfew : stack.size - floor < r.inputs.length
  · simp only [hfew, if_true]
    constructor
    · intro h
      cases h
    · rintro ⟨h, -⟩
      omega
  rw [if_neg hfew]
  have hroom : floor + r.inputs.length ≤ stack.size := by omega
  have hlength : (stack.top r.inputs.length).length = r.inputs.length :=
    Stack.length_top (by omega)
  by_cases htypes : (stack.top r.inputs.length).map Value.type = r.inputs
  · rw [(mismatchFrom?_eq_none_iff hlength).mpr htypes]
    simp [hroom, htypes]
  · obtain ⟨m, hm⟩ := exists_mismatch hlength htypes
    rw [hm]
    simp [htypes]

theorem enter_eq_ok_iff :
    r.enter function floor stack = .ok frame ↔
      floor + r.inputs.length ≤ stack.size ∧
        (stack.top r.inputs.length).map Value.type = r.inputs ∧
        frame = .fresh function (stack.size - r.inputs.length) r.slots := by
  rw [← and_assoc, ← checkInputs_eq_ok_iff, enter]
  cases r.checkInputs function floor stack <;> simp [Except.map, eq_comm]

theorem enter_eq_error_iff_checkInputs {failure : Failure} :
    r.enter function floor stack = .error failure ↔
      r.checkInputs function floor stack = .error failure := by
  rw [enter]
  cases r.checkInputs function floor stack <;> simp [Except.map]

theorem enter_ne_stuck (h : floor ≤ stack.size) : r.enter function floor stack ≠ .error .stuck := by
  rw [Ne, enter_eq_error_iff_checkInputs, checkInputs]
  rw [if_neg (by omega)]
  split
  · simp
  · split <;> simp

theorem leave_eq_ok_iff :
    r.leave frame stack = .ok () ↔
      frame.base ≤ stack.size ∧ (stack.above frame.base).map Value.type = r.outputs := by
  simp only [leave]
  by_cases hbase : stack.size < frame.base
  · simp only [hbase, if_true]
    constructor
    · intro h
      cases h
    · rintro ⟨h, -⟩
      omega
  rw [if_neg hbase]
  have hlength := stack.length_above frame.base
  by_cases hcount : stack.size - frame.base = r.outputs.length
  · rw [if_neg (by simpa using hcount)]
    by_cases htypes : (stack.above frame.base).map Value.type = r.outputs
    · rw [(mismatchFrom?_eq_none_iff (hlength.trans hcount)).mpr htypes]
      simp [htypes, Nat.le_of_not_lt hbase]
    · obtain ⟨m, hm⟩ := exists_mismatch (hlength.trans hcount) htypes
      rw [hm]
      simp [htypes]
  · rw [if_pos hcount]
    constructor
    · intro h
      cases h
    · rintro ⟨-, h⟩
      rw [← h, List.length_map] at hcount
      omega

theorem leave_ne_stuck (h : frame.base ≤ stack.size) : r.leave frame stack ≠ .error .stuck := by
  simp only [leave]
  rw [if_neg (by omega)]
  split
  · simp
  · split <;> simp

/-- A function is not entered on too few values, or on a value of the wrong type. -/
theorem enter_eq_fault_iff {fault : Fault} :
    r.enter function floor stack = .error (.fault fault) ↔
      floor ≤ stack.size ∧
        ((stack.size - floor < r.inputs.length ∧
            fault = .tooFewValues ⟨function, 0⟩ r.inputs.length (stack.size - floor)) ∨
          (r.inputs.length ≤ stack.size - floor ∧
            ∃ m : Mismatch, m.IsFirst r.inputs (stack.top r.inputs.length) ∧
              fault = .wrongArgumentType function m.position m.expected m.found)) := by
  simp only [enter_eq_error_iff_checkInputs, checkInputs]
  by_cases hfloor : stack.size < floor
  · rw [if_pos hfloor]
    constructor
    · intro h
      cases h
    · rintro ⟨h, -⟩
      omega
  rw [if_neg hfloor]
  have hle : floor ≤ stack.size := Nat.le_of_not_lt hfloor
  by_cases hfew : stack.size - floor < r.inputs.length
  · rw [if_pos hfew]
    constructor
    · intro h
      cases h
      exact ⟨hle, .inl ⟨hfew, rfl⟩⟩
    · rintro ⟨-, ⟨-, rfl⟩ | ⟨henough, -⟩⟩
      · rfl
      · omega
  rw [if_neg hfew]
  have hlength : (stack.top r.inputs.length).length = r.inputs.length :=
    Stack.length_top (by omega)
  constructor
  · intro h
    split at h
    · rename_i m hm
      cases h
      exact ⟨hle, .inr ⟨Nat.le_of_not_lt hfew, m, isFirst_of_mismatch hm, rfl⟩⟩
    · cases h
  · rintro ⟨-, ⟨h, -⟩ | ⟨-, m, hfirst, rfl⟩⟩
    · exact absurd h hfew
    · rw [(mismatchFrom?_eq_some_iff hlength).mpr hfirst]

/-- A function is not left with a wrong number of values, or with one of the wrong type. -/
theorem leave_eq_fault_iff {fault : Fault} :
    r.leave frame stack = .error (.fault fault) ↔
      frame.base ≤ stack.size ∧
        ((stack.size - frame.base ≠ r.outputs.length ∧
            fault = .wrongOutputCount frame.function r.outputs.length (stack.size - frame.base)) ∨
          (stack.size - frame.base = r.outputs.length ∧
            ∃ m : Mismatch, m.IsFirst r.outputs (stack.above frame.base) ∧
              fault = .wrongOutputType frame.function m.position m.expected m.found)) := by
  simp only [leave]
  by_cases hbase : stack.size < frame.base
  · rw [if_pos hbase]
    constructor
    · intro h
      cases h
    · rintro ⟨h, -⟩
      omega
  rw [if_neg hbase]
  have hle : frame.base ≤ stack.size := Nat.le_of_not_lt hbase
  by_cases hcount : stack.size - frame.base ≠ r.outputs.length
  · rw [if_pos hcount]
    constructor
    · intro h
      cases h
      exact ⟨hle, .inl ⟨hcount, rfl⟩⟩
    · rintro ⟨-, ⟨-, rfl⟩ | ⟨hsame, -⟩⟩
      · rfl
      · exact absurd hsame hcount
  rw [if_neg hcount]
  have hsame : stack.size - frame.base = r.outputs.length := Decidable.not_not.mp hcount
  have hlength : (stack.above frame.base).length = r.outputs.length :=
    (stack.length_above frame.base).trans hsame
  constructor
  · intro h
    split at h
    · rename_i m hm
      cases h
      exact ⟨hle, .inr ⟨hsame, m, isFirst_of_mismatch hm, rfl⟩⟩
    · cases h
  · rintro ⟨-, ⟨h, -⟩ | ⟨-, m, hfirst, rfl⟩⟩
    · exact absurd h hcount
    · rw [(mismatchFrom?_eq_some_iff hlength).mpr hfirst]

/-! ### Frames in memory -/

theorem activate_eq_bind :
    r.activate function floor stack = (r.enter function floor stack).bind fun frame =>
      if r.slots < Frame.slotLimit then .ok frame else .error .stuck := by
  rw [activate, enter]
  by_cases hslots : r.slots < Frame.slotLimit <;> simp only [hslots, if_true, if_false] <;>
    cases r.checkInputs function floor stack <;> rfl

theorem activate_eq_ok_iff :
    r.activate function floor stack = .ok frame ↔
      r.slots < Frame.slotLimit ∧ floor + r.inputs.length ≤ stack.size ∧
        (stack.top r.inputs.length).map Value.type = r.inputs ∧
        frame = .fresh function (stack.size - r.inputs.length) r.slots := by
  rw [← enter_eq_ok_iff, activate_eq_bind]
  by_cases hslots : r.slots < Frame.slotLimit <;>
    cases r.enter function floor stack <;> simp [Except.bind, hslots]

theorem activate_eq_fault_iff {fault : Fault} :
    r.activate function floor stack = .error (.fault fault) ↔
      r.enter function floor stack = .error (.fault fault) := by
  rw [activate_eq_bind]
  by_cases hslots : r.slots < Frame.slotLimit <;>
    cases r.enter function floor stack <;> simp [Except.bind, hslots]

/-- Only a function that could be entered otherwise gets stuck over its slots. -/
theorem activate_eq_stuck_iff (h : floor ≤ stack.size) :
    r.activate function floor stack = .error .stuck ↔
      Frame.slotLimit ≤ r.slots ∧ ∃ frame, r.enter function floor stack = .ok frame := by
  rw [activate_eq_bind, ← Nat.not_lt]
  cases he : r.enter function floor stack with
  | error failure =>
    have hne : failure ≠ .stuck := fun hstuck => enter_ne_stuck h (hstuck ▸ he)
    simp [Except.bind, hne]
  | ok frame => by_cases hslots : r.slots < Frame.slotLimit <;> simp [Except.bind, hslots]

theorem entryEvents_of_enter (h : r.enter function floor stack = .ok frame) (depth : Nat) :
    r.entryEvents function floor depth stack = [.entered function depth frame.base] := by
  obtain ⟨hroom, htypes, rfl⟩ := enter_eq_ok_iff.mp h
  rw [entryEvents, checkInputs_eq_ok_iff.mpr ⟨hroom, htypes⟩]
  rfl

theorem entryEvents_of_fault {fault : Fault}
    (h : r.activate function floor stack = .error (.fault fault)) (depth : Nat) :
    r.entryEvents function floor depth stack = [] := by
  rw [entryEvents, enter_eq_error_iff_checkInputs.mp (activate_eq_fault_iff.mp h)]

end Routine

end StackMachine
