import StackMachine.Opcode

/-!
# Instructions

An instruction is what a producer of code hands over: a raw 16-bit code and perhaps an operand.
Nothing is checked here.  The code need not be assigned, and the operand need not suit it; whether
they do is decided when the function is validated.
-/

namespace StackMachine

structure Instruction where
  code : UInt16
  operand : Option Value
  deriving DecidableEq

namespace Instruction

def opcode? (i : Instruction) : Option Opcode :=
  Opcode.ofCode? i.code

/-- The listing of an instruction: its mnemonic, or the bare code where there is none, and after a
blank its operand. -/
def text (i : Instruction) : String :=
  let head := match i.opcode? with
    | some o => o.mnemonic
    | none => "<unknown " ++ Hexadecimal.ofCode i.code ++ ">"
  match i.operand with
  | some v => head ++ " " ++ v.text
  | none => head

end Instruction

def Opcode.withOperand (o : Opcode) (operand : Option Value) : Instruction :=
  ⟨o.code, operand⟩

@[simp] theorem Opcode.opcode?_withOperand (o : Opcode) (operand : Option Value) :
    (o.withOperand operand).opcode? = some o :=
  Opcode.ofCode?_code o

end StackMachine
