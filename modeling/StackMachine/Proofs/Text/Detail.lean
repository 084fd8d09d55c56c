import StackMachine.Opcode
import StackMachine.Proofs.Text.Numeral

/-!
# Details of a text

A text about code names numbers, codes, opcodes and types.  Each kind of detail is written in a way
of its own, and two details of the same kind are never written alike (`Detail.eq_of_text_eq`).

Two properties make it possible to find a detail in a text.  It is one word, with no blank inside
(`Detail.unbroken_text`), and it has a digit or a capital (`Detail.hasMark_text`), which the
words around it do not have.
-/

namespace StackMachine

/-! ### Names -/

theorem ValueType.name_injective : Function.Injective ValueType.name := by
  intro t t' h
  cases t <;> cases t' <;> first | rfl | exact absurd h (by decide)

theorem OperandKind.name_injective : Function.Injective OperandKind.name := by
  intro kind kind' h
  match kind, kind' with
  | .none, .none => rfl
  | .literal t, .literal t' => rw [ValueType.name_injective h]
  | .none, .literal t => cases t <;> exact absurd h (by decide)
  | .literal t, .none => cases t <;> exact absurd h (by decide)

namespace Opcode

theorem ofMnemonic?_mnemonic (o : Opcode) : ofMnemonic? o.mnemonic = some o := by
  have h : ∀ o ∈ all, ofMnemonic? o.mnemonic = some o := by decide +kernel
  exact h o (mem_all o)

theorem mnemonic_injective : Function.Injective mnemonic := by
  intro o o' h
  exact Option.some.inj (by rw [← ofMnemonic?_mnemonic o, h, ofMnemonic?_mnemonic])

theorem unbroken_mnemonic (o : Opcode) : unbroken o.mnemonic.toList = true := by
  have h : ∀ o ∈ all, unbroken o.mnemonic.toList = true := by decide +kernel
  exact h o (mem_all o)

end Opcode

/-! ### Details -/

inductive Detail where
  | number (n : Nat)
  | integer (i : Int64)
  | code (c : UInt16)
  | opcode (o : Opcode)
  | operandKind (kind : OperandKind)
  | valueType (t : ValueType)

inductive DetailType where
  | number
  | integer
  | code
  | opcode
  | operandKind
  | valueType

/-- Whether a word has a digit or a capital. -/
def hasMark (word : List Char) : Bool :=
  word.any fun c => c.isDigit || c.isUpper

theorem hasMark_of_isDigit {word : List Char} (h : ∃ c ∈ word, c.isDigit = true) :
    hasMark word = true := by
  obtain ⟨c, hc, hdigit⟩ := h
  exact List.any_eq_true.mpr ⟨c, hc, by rw [hdigit, Bool.true_or]⟩

namespace Detail

def type : Detail → DetailType
  | .number _ => .number
  | .integer _ => .integer
  | .code _ => .code
  | .opcode _ => .opcode
  | .operandKind _ => .operandKind
  | .valueType _ => .valueType

def text : Detail → String
  | .number n => Decimal.ofNat n
  | .integer i => Decimal.ofInt64 i
  | .code c => Hexadecimal.ofCode c
  | .opcode o => o.mnemonic
  | .operandKind kind => kind.name
  | .valueType t => t.name

/-- **A detail can be told from its text, once it is known what it is about.** -/
theorem eq_of_text_eq {d d' : Detail} (htype : d.type = d'.type) (htext : d.text = d'.text) :
    d = d' := by
  match d, d' with
  | .number _, .number _ => rw [Decimal.ofNat_injective htext]
  | .integer _, .integer _ => rw [Decimal.ofInt64_injective htext]
  | .code _, .code _ => rw [Hexadecimal.ofCode_injective htext]
  | .opcode _, .opcode _ => rw [Opcode.mnemonic_injective htext]
  | .operandKind _, .operandKind _ => rw [OperandKind.name_injective htext]
  | .valueType _, .valueType _ => rw [ValueType.name_injective htext]

theorem unbroken_text (d : Detail) : unbroken d.text.toList = true := by
  cases d with
  | number n => exact Decimal.unbroken_ofInt (.ofNat n)
  | integer i => exact Decimal.unbroken_ofInt i.toInt
  | code c => exact Hexadecimal.unbroken_ofCode c
  | opcode o => exact Opcode.unbroken_mnemonic o
  | operandKind kind => rcases kind with _ | _ | _ <;> decide
  | valueType t => cases t <;> decide

theorem hasMark_text (d : Detail) : hasMark d.text.toList = true := by
  cases d with
  | number n => exact hasMark_of_isDigit (Decimal.exists_isDigit_ofInt (.ofNat n))
  | integer i => exact hasMark_of_isDigit (Decimal.exists_isDigit_ofInt i.toInt)
  | code c =>
    rw [text, Hexadecimal.toList_ofCode]
    exact hasMark_of_isDigit ⟨'0', List.mem_cons_self, by decide⟩
  | opcode o =>
    have h : ∀ o ∈ Opcode.all, hasMark o.mnemonic.toList = true := by decide +kernel
    exact h o (Opcode.mem_all o)
  | operandKind kind => rcases kind with _ | _ | _ <;> decide
  | valueType t => cases t <;> decide

end Detail

end StackMachine
