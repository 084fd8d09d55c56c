import Mathlib.Algebra.Group.Nat.Defs
import StackMachine.Proofs.Validation.Acceptance

/-!
# Decoding is one to one

Validation decodes raw instructions to operations, and `Op.encode` writes an operation as an
instruction again.  The two are inverse to each other as far as that is possible.  Nothing is lost:
the instruction that an operation was decoded from is the one that it is written as
(`Instruction.Means.eq_encode`).  And every operation is reached that refers to nothing out of scope
and whose index can be written, which is as a signed word (`Op.encode_admissible`).

For programs this is one equivalence,

    validate definitions = .ok program ↔
      definitions = program.toList.map Routine.encode ∧ program.Encodable

(`validate_eq_ok_iff_encode`), and the result says its two halves: `validate` is injective where it
accepts, and its image are the encodable programs (`validate_injective_onto_encodable`).
-/

namespace StackMachine

/-! ### Indices as words -/

/-- The index of an operation, if it has one, can be written as a signed 64-bit word. -/
def Op.FitsWord (op : Op) : Prop :=
  ∀ index, op.index? = some index → index < 2 ^ 63

theorem ofNat_toNat_toInt {i : Int64} (h : 0 ≤ i.toInt) : Int64.ofNat i.toInt.toNat = i := by
  have hlt : i.toInt.toNat < 2 ^ 63 := by
    have := i.toInt_lt
    omega
  rw [← Int64.toInt_inj, Int64.toInt_ofNat_of_lt hlt, Int.toNat_of_nonneg h]

theorem Op.FitsWord.of_index {op : Op} {i : Int64} (h : op.index? = some i.toInt.toNat) :
    op.FitsWord := by
  intro index hindex
  obtain rfl := Option.some.inj (h.symm.trans hindex)
  have := i.toInt_lt
  omega

theorem Op.FitsWord.of_none {op : Op} (h : op.index? = none) : op.FitsWord := by
  intro index hindex
  rw [h] at hindex
  cases hindex

/-! ### One instruction -/

section Instructions

variable {s : Scope} {position : Nat} {i : Instruction} {op : Op}

/-- The operation that a row makes of an operand still tells the row and the operand. -/
theorem Opcode.of_usage_op? {o : Opcode} {operand : Option Value}
    (hadmits : o.usage.Admits s position operand) (hop : o.usage.op? operand = some op) :
    op.opcode = o ∧ op.operand = operand ∧ op.FitsWord := by
  cases o with
  | load | store | call | branch | branchIf =>
    obtain ⟨v, rfl, h0, -⟩ := hadmits
    cases hop
    exact ⟨rfl, congrArg (fun w => some (Value.integer w)) (ofNat_toNat_toInt h0),
      .of_index rfl⟩
  | push type =>
    cases type with
    | boolean =>
      obtain ⟨b, rfl⟩ := hadmits
      cases hop
      exact ⟨rfl, rfl, .of_none rfl⟩
    | integer =>
      obtain ⟨v, rfl⟩ := hadmits
      cases hop
      exact ⟨rfl, rfl, .of_none rfl⟩
  | exit | unary | binary =>
    obtain rfl : operand = none := hadmits
    cases hop
    exact ⟨rfl, rfl, .of_none rfl⟩

/-- **Decoding loses nothing.**  What an instruction means is written as that instruction. -/
theorem Instruction.Means.eq_encode (hadmissible : i.Admissible s position)
    (hmeans : i.Means op) : i = op.encode ∧ op.FitsWord := by
  obtain ⟨o, ho, hadmits⟩ := admissible_iff.mp hadmissible
  obtain ⟨o', ho', hop⟩ := means_iff.mp hmeans
  obtain rfl := Option.some.inj (ho.symm.trans ho')
  obtain ⟨hopcode, hoperand, hword⟩ := Opcode.of_usage_op? hadmits hop
  obtain ⟨code, operand⟩ := i
  obtain rfl : op.opcode.code = code := by
    rw [hopcode]
    exact Opcode.code_of_ofCode? ho
  obtain rfl : op.operand = operand := hoperand
  exact ⟨rfl, hword⟩

/-- **Decoding reaches everything in scope.**  An operation that refers to nothing out of scope is
what it is written as means, if its index can be written. -/
theorem Op.encode_admissible (hscope : op.InScope s position) (hword : op.FitsWord) :
    op.encode.Admissible s position ∧ op.encode.Means op := by
  rw [Instruction.admissible_iff, Instruction.means_iff]
  simp only [encode, Opcode.opcode?_withOperand, Option.some.injEq, exists_eq_left']
  cases op with
  | load n | store n | call n =>
    have hn : (Int64.ofNat n).toInt = n := Int64.toInt_ofNat_of_lt (hword n rfl)
    simp only [InScope] at hscope
    refine ⟨⟨_, rfl, by omega, by omega⟩, ?_⟩
    simp [Opcode.withOperand, operand, index?, opcode, Opcode.usage, Usage.op?, hn]
  | branch n | branchIf flag n =>
    have hn : (Int64.ofNat n).toInt = n := Int64.toInt_ofNat_of_lt (hword n rfl)
    simp only [InScope] at hscope
    refine ⟨⟨_, rfl, by omega, by omega, by omega⟩, ?_⟩
    simp [Opcode.withOperand, operand, index?, opcode, Opcode.usage, Usage.op?, hn]
  | push value =>
    cases value with
    | boolean b => exact ⟨⟨b, rfl⟩, rfl⟩
    | integer v => exact ⟨⟨v, rfl⟩, rfl⟩
  | exit | unary | binary => exact ⟨rfl, rfl⟩

theorem Instruction.means_iff_encode :
    i.Admissible s position ∧ i.Means op ↔
      i = op.encode ∧ op.InScope s position ∧ op.FitsWord := by
  constructor
  · rintro ⟨hadmissible, hmeans⟩
    obtain ⟨hencode, hword⟩ := hmeans.eq_encode hadmissible
    exact ⟨hencode, hmeans.inScope hadmissible, hword⟩
  · rintro ⟨rfl, hscope, hword⟩
    exact op.encode_admissible hscope hword

end Instructions

/-! ### Whole programs -/

/-- A routine that may stand at an index in a program of so many functions: it declares an output,
and its operations refer to nothing out of scope, by indices that can be written. -/
structure Routine.Encodable (functions index : Nat) (r : Routine) : Prop where
  outputs_ne_nil : r.outputs ≠ []
  code : ∀ (position : Nat) (op : Op), r.ops[position]? = some op →
    op.InScope ⟨index, r.ops.size, r.slots, functions⟩ position ∧ op.FitsWord

def Program.Encodable (program : Program) : Prop :=
  ∀ (index : Nat) (r : Routine), program[index]? = some r → r.Encodable program.size index

theorem Definition.decodes_iff_encode {functions index : Nat} {d : Definition} {r : Routine} :
    d.Decodes functions index r ↔ d = r.encode ∧ r.Encodable functions index := by
  constructor
  · rintro ⟨houtputs, hcode, hinputs_eq, houtputs_eq, hslots_eq⟩
    simp only [Instruction.means_iff_encode] at hcode
    obtain ⟨hmap, hops⟩ := matches_eq_map_iff.mp hcode
    obtain ⟨code, inputs, outputs, slots⟩ := d
    obtain ⟨ops, _, _, _⟩ := r
    cases hinputs_eq
    cases houtputs_eq
    cases hslots_eq
    obtain rfl : code = ops.toList.map Op.encode := hmap
    refine ⟨rfl, houtputs, ?_⟩
    intro position op hop
    have hscope := hops position op (by simpa using hop)
    simpa [Definition.scope] using hscope
  · rintro ⟨rfl, houtputs, hops⟩
    refine ⟨houtputs, ?_, rfl, rfl, rfl⟩
    simp only [Instruction.means_iff_encode]
    refine matches_eq_map_iff.mpr ⟨rfl, ?_⟩
    intro position op hop
    have hscope := hops position op (by simpa using hop)
    simpa [Definition.scope, Routine.encode, Definition.ofOps] using hscope

/-- **Validation undoes encoding.**  A program is what some definitions are decoded to exactly if it
is encodable and they are what it is written as. -/
theorem validate_eq_ok_iff_encode {definitions : List Definition} {program : Program} :
    validate definitions = .ok program ↔
      definitions = program.toList.map Routine.encode ∧ program.Encodable := by
  simp only [validate_eq_ok_iff, Definition.decodes_iff_encode, matches_eq_map_iff,
    Array.getElem?_toList]
  refine and_congr_right ?_
  rintro rfl
  rw [List.length_map, Array.length_toList]
  rfl

/-- **Decoding is one to one.**  No two programs are decoded to the same, and what is reached are
the programs in which every function declares an output, every slot, branch target and callee is in
scope, no branch leads to itself, and every index is that of a signed word. -/
theorem validate_injective_onto_encodable :
    (∀ (definitions definitions' : List Definition) (program : Program),
      validate definitions = .ok program → validate definitions' = .ok program →
        definitions = definitions') ∧
    ∀ program : Program, (∃ definitions, validate definitions = .ok program) ↔
      ∀ (index : Nat) (r : Routine), program[index]? = some r →
        r.outputs ≠ [] ∧ ∀ (position : Nat) (op : Op), r.ops[position]? = some op →
          op.InScope ⟨index, r.ops.size, r.slots, program.size⟩ position ∧
          ∀ n, op.index? = some n → n < 2 ^ 63 := by
  simp only [validate_eq_ok_iff_encode]
  refine ⟨?_, ?_⟩
  · rintro definitions definitions' program ⟨h, -⟩ ⟨h', -⟩
    exact h.trans h'.symm
  · intro program
    constructor
    · rintro ⟨definitions, -, h⟩ index r hr
      exact ⟨(h index r hr).outputs_ne_nil, (h index r hr).code⟩
    · intro h
      refine ⟨_, rfl, ?_⟩
      intro index r hr
      exact ⟨(h index r hr).1, (h index r hr).2⟩

/-- A program that loads a slot, of which it has one more than can be written. -/
def loading (slot : Nat) : Program :=
  #[{ ops := #[.load slot], inputs := [], outputs := [.integer], slots := 2 ^ 63 + 1 }]

def greatestLoad : Definition where
  code := [⟨0x0010, some (.integer Int64.maxValue)⟩]
  inputs := []
  outputs := [.integer]
  slots := 2 ^ 63 + 1

/-- The greatest slot that can be written is loaded by one instruction and no other, and the slot
after it, which the function has too, by none. -/
theorem loading_greatest_slot :
    validate [greatestLoad] = .ok (loading (2 ^ 63 - 1)) ∧
      (∀ definitions, validate definitions = .ok (loading (2 ^ 63 - 1)) →
        definitions = [greatestLoad]) ∧
      ¬ ∃ definitions, validate definitions = .ok (loading (2 ^ 63)) := by
  obtain ⟨hinjective, himage⟩ := validate_injective_onto_encodable
  have hload : validate [greatestLoad] = .ok (loading (2 ^ 63 - 1)) := rfl
  refine ⟨hload, fun definitions h => hinjective definitions _ _ h hload, ?_⟩
  intro h
  have hlast := ((himage _).mp h 0 _ rfl).2 0 _ rfl
  exact absurd (hlast.2 (2 ^ 63) rfl) (Nat.lt_irrefl _)

end StackMachine
