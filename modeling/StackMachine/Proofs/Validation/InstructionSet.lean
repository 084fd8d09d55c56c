import StackMachine.Proofs.Check
import StackMachine.Validation

/-!
# The instruction set as a table

Checking an instruction goes through its opcode, the kind of operand the opcode takes, the form of
the instruction and the scope of its index.  `instructionSet` says the same in one table by raw
code: each row has a code, what must stand beside it (`Usage`), and the operation that results.

An instruction is admissible at a place if its code has a row and its operand suits that row
(`Instruction.Admissible`), and it means the operation that the row makes of the operand
(`Instruction.Means`).  The check accepts exactly the admissible instructions and decodes them to
what they mean (`Scope.check_eq_ok_iff`).
-/

namespace StackMachine

/-! ### The table -/

/-- What must stand beside a code, and the operation that results. -/
inductive Usage where
  /-- No operand. -/
  | plain (op : Op)
  | boolean (op : Bool → Op)
  | integer (op : Int64 → Op)
  /-- The index of another instruction of the same function. -/
  | target (op : Nat → Op)
  /-- The index of a slot of the function. -/
  | slot (op : Nat → Op)
  /-- The index of a function of the program. -/
  | callee (op : Nat → Op)

def instructionSet : List (UInt16 × Usage) :=
  [(0x0010, .slot .load), (0x0011, .slot .store),
    (0x0020, .callee .call), (0x0021, .plain .exit),
    (0x0030, .target .branch), (0x0031, .target (.branchIf true)),
    (0x0032, .target (.branchIf false)),
    (0x0100, .boolean fun b => .push (.boolean b)),
    (0x0101, .plain (.binary (.boolean .equal))), (0x0102, .plain (.binary (.boolean .notEqual))),
    (0x0103, .plain (.binary (.boolean .and))), (0x0107, .plain (.binary (.boolean .or))),
    (0x0108, .plain (.unary .booleanNot)),
    (0x0500, .integer fun i => .push (.integer i)),
    (0x0501, .plain (.binary (.compare .equal))), (0x0502, .plain (.binary (.compare .notEqual))),
    (0x0503, .plain (.binary (.integer .add))), (0x0504, .plain (.binary (.integer .subtract))),
    (0x0505, .plain (.binary (.integer .multiply))), (0x0506, .plain (.binary (.integer .divide))),
    (0x0507, .plain (.binary (.integer .modulus))),
    (0x0508, .plain (.binary (.integer .shiftLeft))),
    (0x0509, .plain (.binary (.integer .shiftRightArithmetic))),
    (0x050A, .plain (.binary (.integer .shiftRightLogical))),
    (0x050B, .plain (.binary (.integer .rotateLeft))),
    (0x050C, .plain (.binary (.integer .rotateRight))),
    (0x050D, .plain (.binary (.integer .bitwiseAnd))),
    (0x050E, .plain (.binary (.integer .bitwiseOr))), (0x050F, .plain (.unary .bitwiseNot)),
    (0x0510, .plain (.binary (.integer .bitwiseXor))),
    (0x0511, .plain (.binary (.compare .greaterThan))),
    (0x0512, .plain (.binary (.compare .lessThan))),
    (0x0513, .plain (.binary (.compare .greaterEqual))),
    (0x0514, .plain (.binary (.compare .lessEqual)))]

/-- An operand is what a row asks for, at a position in a scope. -/
def Usage.Admits (s : Scope) (position : Nat) (operand : Option Value) : Usage → Prop
  | .plain _ => operand = none
  | .boolean _ => ∃ b, operand = some (.boolean b)
  | .integer _ => ∃ i, operand = some (.integer i)
  | .target _ => ∃ i, operand = some (.integer i) ∧ 0 ≤ i.toInt ∧ i.toInt < s.length ∧
      i.toInt ≠ position
  | .slot _ => ∃ i, operand = some (.integer i) ∧ 0 ≤ i.toInt ∧ i.toInt < s.slots
  | .callee _ => ∃ i, operand = some (.integer i) ∧ 0 ≤ i.toInt ∧ i.toInt < s.functions

def Usage.op? : Usage → Option Value → Option Op
  | .plain op, none => some op
  | .boolean op, some (.boolean b) => some (op b)
  | .integer op, some (.integer i) => some (op i)
  | .target op, some (.integer i) => some (op i.toInt.toNat)
  | .slot op, some (.integer i) => some (op i.toInt.toNat)
  | .callee op, some (.integer i) => some (op i.toInt.toNat)
  | _, _ => none

namespace Instruction

/-- The code is assigned and the operand suits it, at a position in a scope. -/
def Admissible (s : Scope) (position : Nat) (i : Instruction) : Prop :=
  ∃ usage, (i.code, usage) ∈ instructionSet ∧ usage.Admits s position i.operand

/-- The operation that the table gives for code and operand. -/
def Means (i : Instruction) (op : Op) : Prop :=
  ∃ usage, (i.code, usage) ∈ instructionSet ∧ usage.op? i.operand = some op

end Instruction

/-! ### The table by opcodes -/

def Opcode.usage : Opcode → Usage
  | .load => .slot .load
  | .store => .slot .store
  | .call => .callee .call
  | .exit => .plain .exit
  | .branch => .target .branch
  | .branchIf flag => .target (.branchIf flag)
  | .push .boolean => .boolean fun b => .push (.boolean b)
  | .push .integer => .integer fun i => .push (.integer i)
  | .unary o => .plain (.unary o)
  | .binary o => .plain (.binary o)

theorem instructionSet_eq : instructionSet = Opcode.all.map fun o => (o.code, o.usage) := rfl

theorem mem_instructionSet_iff {code : UInt16} {usage : Usage} :
    (code, usage) ∈ instructionSet ↔ ∃ o, Opcode.ofCode? code = some o ∧ o.usage = usage := by
  rw [instructionSet_eq, List.mem_map]
  constructor
  · rintro ⟨o, -, ho⟩
    cases ho
    exact ⟨o, Opcode.ofCode?_code o, rfl⟩
  · rintro ⟨o, ho, rfl⟩
    exact ⟨o, Opcode.mem_all o, by rw [Opcode.code_of_ofCode? ho]⟩

theorem Instruction.admissible_iff {s : Scope} {position : Nat} {i : Instruction} :
    i.Admissible s position ↔
      ∃ o, i.opcode? = some o ∧ o.usage.Admits s position i.operand := by
  simp only [Admissible, mem_instructionSet_iff, opcode?]
  constructor
  · rintro ⟨usage, ⟨o, ho, rfl⟩, h⟩
    exact ⟨o, ho, h⟩
  · rintro ⟨o, ho, h⟩
    exact ⟨_, ⟨o, ho, rfl⟩, h⟩

theorem Instruction.means_iff {i : Instruction} {op : Op} :
    i.Means op ↔ ∃ o, i.opcode? = some o ∧ o.usage.op? i.operand = some op := by
  simp only [Means, mem_instructionSet_iff, opcode?]
  constructor
  · rintro ⟨usage, ⟨o, ho, rfl⟩, h⟩
    exact ⟨o, ho, h⟩
  · rintro ⟨o, ho, h⟩
    exact ⟨_, ⟨o, ho, rfl⟩, h⟩

/-- No two rows have one code. -/
theorem Instruction.Means.unique {i : Instruction} {op op' : Op} (h : i.Means op)
    (h' : i.Means op') : op = op' := by
  obtain ⟨o, ho, hop⟩ := means_iff.mp h
  obtain ⟨o', ho', hop'⟩ := means_iff.mp h'
  obtain rfl := Option.some.inj (ho.symm.trans ho')
  exact Option.some.inj (hop.symm.trans hop')

/-! ### Indices -/

theorem indexBelow?_eq_some_iff {bound n : Nat} {i : Int64} :
    indexBelow? bound i = some n ↔ (0 ≤ i.toInt ∧ i.toInt < bound) ∧ i.toInt.toNat = n := by
  unfold indexBelow?
  split
  · rename_i h
    rw [Option.some.injEq]
    exact ⟨fun hn => ⟨h, hn⟩, fun hn => hn.2⟩
  · rename_i h
    constructor
    · intro hn
      cases hn
    · rintro ⟨hn, -⟩
      exact absurd hn h

namespace Scope

variable {s : Scope} {position n : Nat} {i : Int64}

theorem slot_eq_ok_iff :
    s.slot position i = .ok n ↔ (0 ≤ i.toInt ∧ i.toInt < s.slots) ∧ i.toInt.toNat = n := by
  rw [slot, ← indexBelow?_eq_some_iff]
  cases indexBelow? s.slots i <;> simp

theorem callee_eq_ok_iff :
    s.callee position i = .ok n ↔ (0 ≤ i.toInt ∧ i.toInt < s.functions) ∧ i.toInt.toNat = n := by
  rw [callee, ← indexBelow?_eq_some_iff]
  cases indexBelow? s.functions i <;> simp

theorem branchTarget_eq_ok_iff :
    s.branchTarget position i = .ok n ↔
      (0 ≤ i.toInt ∧ i.toInt < s.length ∧ i.toInt ≠ position) ∧ i.toInt.toNat = n := by
  unfold branchTarget
  cases ht : indexBelow? s.length i with
  | none =>
    have hout : ¬ (0 ≤ i.toInt ∧ i.toInt < s.length) := by
      intro h
      rw [indexBelow?_eq_some_iff.mpr ⟨h, rfl⟩] at ht
      cases ht
    simp only [reduceCtorEq, false_iff]
    omega
  | some t =>
    obtain ⟨⟨h0, h1⟩, rfl⟩ := indexBelow?_eq_some_iff.mp ht
    simp only
    split
    · simp only [reduceCtorEq, false_iff]
      omega
    · rw [Except.ok.injEq]
      omega

/-! ### Resolving an index -/

theorem resolve_load : s.resolve position ⟨.load, some (.integer i)⟩ =
    (s.slot position i).map .load := rfl

theorem resolve_store : s.resolve position ⟨.store, some (.integer i)⟩ =
    (s.slot position i).map .store := rfl

theorem resolve_call : s.resolve position ⟨.call, some (.integer i)⟩ =
    (s.callee position i).map .call := rfl

theorem resolve_branch : s.resolve position ⟨.branch, some (.integer i)⟩ =
    (s.branchTarget position i).map .branch := rfl

theorem resolve_branchIf {flag : Bool} : s.resolve position ⟨.branchIf flag, some (.integer i)⟩ =
    (s.branchTarget position i).map (.branchIf flag) := rfl

theorem resolve_push {type : ValueType} {v : Value} :
    s.resolve position ⟨.push type, some v⟩ = .ok (.push v) := by
  cases v <;> rfl

end Scope

/-! ### The check -/

def OperandKind.Fits (operand : Option Value) : OperandKind → Prop
  | .none => operand = .none
  | .literal type => ∃ v, operand = some v ∧ v.type = type

theorem OperandKind.fits_integer {operand : Option Value}
    (h : (OperandKind.literal .integer).Fits operand) : ∃ i, operand = some (.integer i) := by
  obtain ⟨v, rfl, hv⟩ := h
  cases v with
  | boolean b => cases hv
  | integer i => exact ⟨i, rfl⟩

theorem form_eq_ok_iff {site : Site} {i : Instruction} {form : Form} :
    i.form site = .ok form ↔
      ∃ o, i.opcode? = some o ∧ o.operandKind.Fits i.operand ∧ form = ⟨o, i.operand⟩ := by
  unfold Instruction.form
  cases ho : i.opcode? with
  | none => simp
  | some o =>
    simp only [Option.some.injEq, exists_eq_left', OperandKind.Fits]
    cases hk : o.operandKind with
    | none => cases hv : i.operand <;> simp [eq_comm]
    | literal type =>
      cases hv : i.operand with
      | none => simp
      | some v =>
        by_cases ht : v.type = type
        · simp [ht, eq_comm]
        · simp [ht]

/-- An operand that its row admits is of the right kind. -/
theorem Usage.Admits.fits {s : Scope} {position : Nat} {o : Opcode} {operand : Option Value}
    (h : o.usage.Admits s position operand) : o.operandKind.Fits operand := by
  cases o with
  | load | store | call | branch | branchIf =>
    obtain ⟨i, rfl, -⟩ := h
    exact ⟨_, rfl, rfl⟩
  | push type =>
    cases type with
    | boolean =>
      obtain ⟨b, rfl⟩ := h
      exact ⟨_, rfl, rfl⟩
    | integer =>
      obtain ⟨i, rfl⟩ := h
      exact ⟨_, rfl, rfl⟩
  | exit | unary | binary => exact h

theorem map_eq_ok_iff_of_index {x : Except Fault Nat} {P : Prop} {n : Nat}
    (h : ∀ m, x = .ok m ↔ P ∧ n = m) {make : Nat → Op} {op : Op} :
    x.map make = .ok op ↔ P ∧ make n = op := by
  cases x with
  | error fault =>
    have hP : ¬ P := fun hP => by cases (h n).mpr ⟨hP, rfl⟩
    simp [Except.map, hP]
  | ok m =>
    obtain ⟨hP, rfl⟩ := (h m).mp rfl
    simp [Except.map, hP]

/-- Resolving an operand of the right kind follows the row of the opcode. -/
theorem Scope.resolve_eq_ok_iff {s : Scope} {position : Nat} {o : Opcode} {operand : Option Value}
    {op : Op} (h : o.operandKind.Fits operand) :
    s.resolve position ⟨o, operand⟩ = .ok op ↔
      o.usage.Admits s position operand ∧ o.usage.op? operand = some op := by
  cases o with
  | load =>
    obtain ⟨i, rfl⟩ := OperandKind.fits_integer h
    rw [resolve_load, map_eq_ok_iff_of_index fun _ => slot_eq_ok_iff]
    simp [Opcode.usage, Usage.Admits, Usage.op?]
  | store =>
    obtain ⟨i, rfl⟩ := OperandKind.fits_integer h
    rw [resolve_store, map_eq_ok_iff_of_index fun _ => slot_eq_ok_iff]
    simp [Opcode.usage, Usage.Admits, Usage.op?]
  | call =>
    obtain ⟨i, rfl⟩ := OperandKind.fits_integer h
    rw [resolve_call, map_eq_ok_iff_of_index fun _ => callee_eq_ok_iff]
    simp [Opcode.usage, Usage.Admits, Usage.op?]
  | branch =>
    obtain ⟨i, rfl⟩ := OperandKind.fits_integer h
    rw [resolve_branch, map_eq_ok_iff_of_index fun _ => branchTarget_eq_ok_iff]
    simp [Opcode.usage, Usage.Admits, Usage.op?]
  | branchIf flag =>
    obtain ⟨i, rfl⟩ := OperandKind.fits_integer h
    rw [resolve_branchIf, map_eq_ok_iff_of_index fun _ => branchTarget_eq_ok_iff]
    simp [Opcode.usage, Usage.Admits, Usage.op?]
  | push type =>
    obtain ⟨v, rfl, rfl⟩ := h
    rw [resolve_push]
    cases v <;> simp [Value.type, Opcode.usage, Usage.Admits, Usage.op?]
  | exit | unary | binary =>
    obtain rfl : operand = none := h
    simp [resolve, Opcode.bareOp?, Opcode.usage, Usage.Admits, Usage.op?]

/-- **The check follows the table.**  An instruction is accepted exactly if it is admissible, and
decoded to what it means. -/
theorem Scope.check_eq_ok_iff {s : Scope} {position : Nat} {i : Instruction} {op : Op} :
    s.check position i = .ok op ↔ i.Admissible s position ∧ i.Means op := by
  rw [check, bind_eq_ok_iff, Instruction.admissible_iff, Instruction.means_iff]
  constructor
  · rintro ⟨form, hform, h⟩
    obtain ⟨o, ho, hfits, rfl⟩ := form_eq_ok_iff.mp hform
    obtain ⟨hadmits, hop⟩ := (resolve_eq_ok_iff hfits).mp h
    exact ⟨⟨o, ho, hadmits⟩, ⟨o, ho, hop⟩⟩
  · rintro ⟨⟨o, ho, hadmits⟩, ⟨o', ho', hop⟩⟩
    obtain rfl := Option.some.inj (ho.symm.trans ho')
    have hfits := hadmits.fits
    exact ⟨⟨o, i.operand⟩, form_eq_ok_iff.mpr ⟨o, ho, hfits, rfl⟩,
      (resolve_eq_ok_iff hfits).mpr ⟨hadmits, hop⟩⟩

/-- What is admissible means something. -/
theorem Instruction.Admissible.exists_means {s : Scope} {position : Nat} {i : Instruction}
    (h : i.Admissible s position) : ∃ op, i.Means op := by
  obtain ⟨usage, hmem, hadmits⟩ := h
  cases usage with
  | plain op => exact ⟨op, _, hmem, by rw [show i.operand = none from hadmits]; rfl⟩
  | boolean op =>
    obtain ⟨b, hb⟩ := hadmits
    exact ⟨op b, _, hmem, by rw [hb]; rfl⟩
  | integer op =>
    obtain ⟨v, hv⟩ := hadmits
    exact ⟨op v, _, hmem, by rw [hv]; rfl⟩
  | target op | slot op | callee op =>
    obtain ⟨v, hv, -⟩ := hadmits
    exact ⟨op v.toInt.toNat, _, hmem, by rw [hv]; rfl⟩

end StackMachine
