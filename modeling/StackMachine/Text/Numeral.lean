/-!
# Numerals

Numbers are written in base ten without padding, and a negative one starts with a minus sign.
Reading is a little wider than writing: a numeral may start with a plus sign and may have leading
zeros, but it has at least one digit and nothing besides digits after the sign.

* `Decimal.ofNat`, `Decimal.ofInt`, `Decimal.ofInt64`: writing.
* `Decimal.readNat?`: an unsigned numeral below a bound.
* `Decimal.readInt64?`: a signed numeral in the 64-bit range.

Instruction codes are shown in base sixteen (`Hexadecimal.ofCode`): the mark `0x`, then lowercase
digits, filled up with zeros to four places.  Sixteen bits need no more than four.
-/

namespace StackMachine.Decimal

/-! ### Writing -/

def ofNat (n : Nat) : String :=
  String.ofList (Nat.toDigits 10 n)

def ofInt : Int → String
  | .ofNat n => ofNat n
  | .negSucc n => "-" ++ ofNat (n + 1)

def ofInt64 (i : Int64) : String :=
  ofInt i.toInt

/-! ### Reading -/

def digits? (cs : List Char) : Option Nat :=
  if !cs.isEmpty && cs.all Char.isDigit then some (Nat.ofDigitChars 10 cs 0) else none

/-- An unsigned numeral below `bound`: an optional plus sign, then digits. -/
def readNat? (bound : Nat) (text : String) : Option Nat :=
  let magnitude := match text.toList with
    | '+' :: cs => digits? cs
    | cs => digits? cs
  magnitude.filter (· < bound)

/-- A signed numeral: an optional sign, then digits. -/
def readInt? (text : String) : Option Int :=
  match text.toList with
  | '+' :: cs => (digits? cs).map Int.ofNat
  | '-' :: cs => (digits? cs).map (fun n => -Int.ofNat n)
  | cs => (digits? cs).map Int.ofNat

def readInt64? (text : String) : Option Int64 :=
  ((readInt? text).filter fun i => Int64.minValue.toInt ≤ i ∧ i ≤ Int64.maxValue.toInt).map
    Int64.ofInt

end StackMachine.Decimal

namespace StackMachine.Hexadecimal

/-- The four-place numeral of a 16-bit code. -/
def ofCode (code : UInt16) : String :=
  "0x" ++ String.ofList ((Nat.toDigits 16 code.toNat).leftpad 4 '0')

end StackMachine.Hexadecimal
