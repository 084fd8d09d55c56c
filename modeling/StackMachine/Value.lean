import StackMachine.Text.Numeral

/-!
# Values

A value is a Boolean or a signed 64-bit integer, and it knows which.  The same two types describe
the parameters of a function, so a type is a name of its own (`ValueType`), and
`ValueType.Carrier` says which Lean type it stands for.

`Value.of` and `Value.as?` move between a value and its payload at a given type: `Value.as?_of`
and `Value.of_as?` say that they are inverse to each other.
-/

namespace StackMachine

/-! ### Types -/

inductive ValueType where
  | boolean
  | integer
  deriving DecidableEq

namespace ValueType

def all : List ValueType := [.boolean, .integer]

def name : ValueType → String
  | .boolean => "Boolean"
  | .integer => "Integer"

/-- The payloads that values of a type carry. -/
abbrev Carrier : ValueType → Type
  | .boolean => Bool
  | .integer => Int64

end ValueType

/-! ### Values -/

/-- What lies on the stack, in a slot, or beside an instruction as its operand. -/
inductive Value where
  | boolean (b : Bool)
  | integer (i : Int64)
  deriving DecidableEq

namespace Value

def type : Value → ValueType
  | .boolean _ => .boolean
  | .integer _ => .integer

def of : (t : ValueType) → t.Carrier → Value
  | .boolean => .boolean
  | .integer => .integer

/-- The payload of a value, if it has type `t`. -/
def as? : (t : ValueType) → Value → Option t.Carrier
  | .boolean, .boolean b => some b
  | .integer, .integer i => some i
  | _, _ => none

def text : Value → String
  | .boolean true => "true"
  | .boolean false => "false"
  | .integer i => Decimal.ofInt64 i

@[simp] theorem type_of (t : ValueType) (x : t.Carrier) : (of t x).type = t := by
  cases t <;> rfl

@[simp] theorem as?_of (t : ValueType) (x : t.Carrier) : (of t x).as? t = some x := by
  cases t <;> rfl

theorem of_as? {t : ValueType} {v : Value} {x : t.Carrier} (h : v.as? t = some x) :
    of t x = v := by
  cases t <;> cases v <;> simp_all [as?, of]

theorem as?_eq_none_iff {t : ValueType} {v : Value} : v.as? t = none ↔ v.type ≠ t := by
  cases t <;> cases v <;> simp [as?, type]

end Value

end StackMachine
