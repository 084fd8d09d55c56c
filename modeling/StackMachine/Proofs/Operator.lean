import Mathlib.Algebra.Group.Int.Defs
import Mathlib.Algebra.Group.Nat.Defs
import StackMachine.Operator

/-!
# Operators on exact integers

The operators work on 64-bit words.  Here each of them is given again on integers without bound,
and in the end reduced to what a word can hold (`IntegerOp.exact`):

* sums, differences and products are taken modulo `2^64`;
* a quotient is truncated toward zero and a remainder has the sign of the dividend, and both are
  zero if the divisor is;
* a shift multiplies by a power of two, or divides by one and rounds down;
* a rotation and the bitwise operators act on the bits of the word, read as a natural number.

`IntegerOp.toInt_apply` says that nothing else happens to the words, and `BinaryOp.exact_apply`
and `UnaryOp.exact_apply` say so of all operators at once.
-/

namespace StackMachine

/-! ### Words as integers -/

/-- The integer that a word holds in place of `n`: the only one from `-2^63` to below `2^63` that
differs from `n` by a multiple of `2^64`. -/
def wrap (n : Int) : Int := n.bmod (2 ^ 64)

/-- The bits of the word that holds `n`, as a natural number. -/
def bits (n : Int) : Nat := (n % 2 ^ 64).toNat

theorem toInt_eq_wrap (x : BitVec 64) : x.toInt = wrap x.toNat :=
  x.toInt_eq_toNat_bmod

theorem bits_toInt (a : Int64) : bits a.toInt = a.toBitVec.toNat := by
  have hlt := a.toBitVec.isLt
  rw [bits, ← Int64.toInt_toBitVec, BitVec.toInt_eq_toNat_cond]
  split <;> omega

/-- What differs by a multiple of `2^64` is held by one word. -/
theorem wrap_congr {n k : Int} (h : n % 2 ^ 64 = k % 2 ^ 64) : wrap n = wrap k := by
  rw [wrap, wrap, ← Int.emod_bmod n, ← Int.emod_bmod k]
  exact congrArg (Int.bmod · (2 ^ 64)) h

theorem bits_emod (n : Int) : (bits n : Int) = n % 2 ^ 64 :=
  Int.toNat_of_nonneg (Int.emod_nonneg n (by decide))

/-! ### Integer operators -/

namespace IntegerOp

def exactDistance (b : Int) : Nat := (b % 64).toNat

def exact : IntegerOp → Int → Int → Int
  | .add, a, b => wrap (a + b)
  | .subtract, a, b => wrap (a - b)
  | .multiply, a, b => wrap (a * b)
  | .divide, a, b => if b = 0 then 0 else wrap (a.tdiv b)
  | .modulus, a, b => if b = 0 then 0 else a.tmod b
  | .shiftLeft, a, b => wrap (a * 2 ^ exactDistance b)
  | .shiftRightArithmetic, a, b => a / 2 ^ exactDistance b
  | .shiftRightLogical, a, b => wrap (bits a / 2 ^ exactDistance b : Nat)
  | .rotateLeft, a, b =>
    wrap (bits a * 2 ^ exactDistance b + bits a / 2 ^ (64 - exactDistance b) : Nat)
  | .rotateRight, a, b =>
    wrap (bits a * 2 ^ (64 - exactDistance b) + bits a / 2 ^ exactDistance b : Nat)
  | .bitwiseAnd, a, b => wrap (bits a &&& bits b : Nat)
  | .bitwiseOr, a, b => wrap (bits a ||| bits b : Nat)
  | .bitwiseXor, a, b => wrap (bits a ^^^ bits b : Nat)

theorem distance_eq (b : Int64) : distance b = exactDistance b.toInt := by
  have hlt := b.toBitVec.isLt
  rw [distance, exactDistance, ← Int64.toInt_toBitVec, BitVec.toInt_eq_toNat_cond]
  split <;> omega

theorem exactDistance_lt (b : Int) : exactDistance b < 64 := by
  rw [exactDistance]
  omega

/-! ### Rotations -/

/-- The bits that a rotation pushes out at the top and those that stay do not overlap, so putting
them together is an addition. -/
theorem rotate_eq_add {x e : Nat} (hx : x < 2 ^ 64) (he : e ≤ 64) :
    x <<< e % 2 ^ 64 ||| x >>> (64 - e) = x * 2 ^ e % 2 ^ 64 + x / 2 ^ (64 - e) := by
  have hpow : 2 ^ 64 = 2 ^ e * 2 ^ (64 - e) := by rw [← Nat.pow_add, Nat.add_sub_cancel' he]
  have hhigh : x / 2 ^ (64 - e) < 2 ^ e := by
    refine Nat.div_lt_of_lt_mul ?_
    rw [Nat.mul_comm, ← hpow]
    exact hx
  have hlow : x * 2 ^ e % 2 ^ 64 = 2 ^ e * (x % 2 ^ (64 - e)) := by
    rw [hpow, Nat.mul_comm x, Nat.mul_mod_mul_left]
  rw [Nat.shiftLeft_eq, Nat.shiftRight_eq_div_pow, hlow, Nat.two_pow_add_eq_or_of_lt hhigh]

theorem wrap_rotate (p q : Nat) : wrap (p % 2 ^ 64 + q : Nat) = wrap (p + q : Nat) := by
  refine wrap_congr ?_
  omega

theorem toInt_rotateLeft (x : BitVec 64) {d : Nat} (hd : d < 64) :
    (x.rotateLeft d).toInt = wrap (x.toNat * 2 ^ d + x.toNat / 2 ^ (64 - d) : Nat) := by
  rw [toInt_eq_wrap, BitVec.toNat_rotateLeft, Nat.mod_eq_of_lt hd,
    rotate_eq_add x.isLt (Nat.le_of_lt hd), wrap_rotate]

theorem toInt_rotateRight (x : BitVec 64) {d : Nat} (hd : d < 64) :
    (x.rotateRight d).toInt = wrap (x.toNat * 2 ^ (64 - d) + x.toNat / 2 ^ d : Nat) := by
  have hrotate := rotate_eq_add x.isLt (Nat.sub_le 64 d)
  rw [Nat.sub_sub_self (Nat.le_of_lt hd)] at hrotate
  rw [toInt_eq_wrap, BitVec.toNat_rotateRight, Nat.mod_eq_of_lt hd, Nat.or_comm, hrotate,
    wrap_rotate]

/-! ### Words compute exactly -/

theorem toInt_shiftLeft (a : Int64) (d : Nat) :
    (a.toBitVec <<< d).toInt = wrap (a.toInt * 2 ^ d) := by
  rw [toInt_eq_wrap, BitVec.toNat_shiftLeft, Nat.shiftLeft_eq, ← bits_toInt]
  refine wrap_congr ?_
  calc ((bits a.toInt * 2 ^ d % 2 ^ 64 : Nat) : Int) % 2 ^ 64
      = a.toInt % 2 ^ 64 * 2 ^ d % 2 ^ 64 % 2 ^ 64 := by
        rw [Int.natCast_emod, Int.natCast_mul, Int.natCast_pow, bits_emod]
        rfl
    _ = a.toInt * 2 ^ d % 2 ^ 64 := by
        rw [Int.emod_emod, Int.mul_emod, Int.emod_emod, ← Int.mul_emod]

/-- **Integer operators compute exactly**, up to what a word can hold. -/
theorem toInt_apply (o : IntegerOp) (a b : Int64) :
    (o.apply a b).toInt = o.exact a.toInt b.toInt := by
  have hzero : b.toInt = 0 ↔ b = 0 := Int64.toInt_inj (y := 0)
  cases o with
  | add => exact Int64.toInt_add a b
  | subtract => exact Int64.toInt_sub a b
  | multiply => exact Int64.toInt_mul a b
  | divide =>
    by_cases hb : b = 0
    · simp [apply, exact, hb]
    · simp only [apply, exact, hb, hzero, if_false]
      exact Int64.toInt_div a b
  | modulus =>
    by_cases hb : b = 0
    · simp [apply, exact, hb]
    · simp only [apply, exact, hb, hzero, if_false]
      exact Int64.toInt_mod a b
  | shiftLeft =>
    rw [apply, exact, Int64.toInt_ofBitVec, distance_eq, toInt_shiftLeft]
  | shiftRightArithmetic =>
    rw [apply, exact, Int64.toInt_ofBitVec, distance_eq, BitVec.toInt_sshiftRight,
      Int.shiftRight_eq_div_pow, Int64.toInt_toBitVec]
    push_cast
    rfl
  | shiftRightLogical =>
    rw [apply, exact, Int64.toInt_ofBitVec, distance_eq, toInt_eq_wrap, BitVec.toNat_ushiftRight,
      Nat.shiftRight_eq_div_pow, bits_toInt]
  | rotateLeft =>
    rw [apply, exact, Int64.toInt_ofBitVec, distance_eq, bits_toInt,
      toInt_rotateLeft _ (exactDistance_lt _)]
  | rotateRight =>
    rw [apply, exact, Int64.toInt_ofBitVec, distance_eq, bits_toInt,
      toInt_rotateRight _ (exactDistance_lt _)]
  | bitwiseAnd => rw [exact, bits_toInt, bits_toInt]; exact BitVec.toInt_and ..
  | bitwiseOr => rw [exact, bits_toInt, bits_toInt]; exact BitVec.toInt_or ..
  | bitwiseXor => rw [exact, bits_toInt, bits_toInt]; exact BitVec.toInt_xor ..

end IntegerOp

/-! ### All operators -/

def Comparison.exact : Comparison → Int → Int → Bool
  | .equal, a, b => a = b
  | .notEqual, a, b => a ≠ b
  | .greaterThan, a, b => b < a
  | .lessThan, a, b => a < b
  | .greaterEqual, a, b => b ≤ a
  | .lessEqual, a, b => a ≤ b

theorem Comparison.apply_eq_exact (c : Comparison) (a b : Int64) :
    c.apply a b = c.exact a.toInt b.toInt := by
  cases c with
  | equal | notEqual => simp [apply, exact, Int64.toInt_inj]
  | greaterThan | lessThan => simp [apply, exact, Int64.lt_iff_toInt_lt]
  | greaterEqual | lessEqual => simp [apply, exact, Int64.le_iff_toInt_le]

namespace ValueType

/-- The payloads of a type with integers in place of words. -/
abbrev Exact : ValueType → Type
  | .boolean => Bool
  | .integer => Int

def exact : (t : ValueType) → t.Carrier → t.Exact
  | .boolean, b => b
  | .integer, i => i.toInt

end ValueType

def UnaryOp.exact : (o : UnaryOp) → o.type.Exact → o.type.Exact
  | .booleanNot, a => !a
  | .bitwiseNot, a => -a - 1

def BinaryOp.exact :
    (o : BinaryOp) → o.operandType.Exact → o.operandType.Exact → o.resultType.Exact
  | .boolean o, a, b => o.apply a b
  | .integer o, a, b => o.exact a b
  | .compare c, a, b => c.exact a b

theorem UnaryOp.exact_apply (o : UnaryOp) (a : o.type.Carrier) :
    o.type.exact (o.apply a) = o.exact (o.type.exact a) := by
  cases o with
  | booleanNot => rfl
  | bitwiseNot =>
    have hlow := Int64.le_toInt a
    have hhigh := Int64.toInt_lt a
    refine (Int64.toInt_not a).trans (Int.bmod_eq_of_le ?_ ?_) <;> omega

/-- **Every operator computes exactly**, up to what a word can hold. -/
theorem BinaryOp.exact_apply (o : BinaryOp) (a b : o.operandType.Carrier) :
    o.resultType.exact (o.apply a b) = o.exact (o.operandType.exact a) (o.operandType.exact b) := by
  cases o with
  | boolean o => rfl
  | integer o => exact o.toInt_apply a b
  | compare c => exact c.apply_eq_exact a b

end StackMachine
