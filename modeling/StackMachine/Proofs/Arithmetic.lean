import Mathlib.Algebra.Group.Int.Defs
import StackMachine.Proofs.Execution.Effect
import StackMachine.Proofs.Operator

/-!
# What the integer operators compute

`IntegerOp.Computes` says of each operator which integer it is to compute from two others, without
words: sums, differences, products and quotients up to a multiple of `2^64`, shifts by powers of
two, and for the operators that act on a bit pattern where each bit comes from.  Bit `i` of an
integer in two's complement is the parity of its quotient by `2^i`, rounded down (`bit`), and a word
has the same bits as the integer that it stands for (`bit_toInt`).

The operators on words do just that (`IntegerOp.computes_apply`), and no other word would do
(`IntegerOp.Computes.unique`).  They divide by zero nowhere and move bits by less than the width of
a word, so it makes no difference if division and shifts trap elsewhere (`IntegerOp.trapping_eq`).
The result, with the laws of division, is `IntegerOp.apply_computes_exactly`.
-/

namespace StackMachine

/-! ### Bits -/

/-- Bit `i` of an integer in two's complement. -/
def bit (n : Int) (i : Nat) : Bool := n / 2 ^ i % 2 = 1

variable {a b r r' : Int64} {d i : Nat}

/-- The lowest 64 bits of an integer are those of the word that holds it. -/
theorem bit_eq_testBit (n : Int) (hi : i < 64) : bit n i = (bits n).testBit i := by
  have hpow : (2 : Int) ^ 64 = 2 ^ (63 - i) * 2 * 2 ^ i := by
    rw [← Int.pow_succ, ← Int.pow_add]
    congr 1
    omega
  have hsplit : n / 2 ^ i = (bits n : Int) / 2 ^ i + n / 2 ^ 64 * 2 ^ (63 - i) * 2 := by
    rw [bits_emod, ← Int.add_mul_ediv_right _ _ (Int.pow_ne_zero (by decide)), Int.mul_assoc,
      Int.mul_assoc, ← Int.mul_assoc (2 ^ (63 - i)), ← hpow, Int.emod_add_ediv_mul]
  rw [bit, hsplit, Int.add_mul_emod_self_right, Nat.testBit_eq_decide_div_mod_eq, decide_eq_decide]
  norm_cast

theorem bit_toInt (a : Int64) (hi : i < 64) : bit a.toInt i = a.toBitVec.getLsbD i := by
  rw [bit_eq_testBit _ hi, bits_toInt, BitVec.testBit_toNat]

theorem eq_of_bit_eq (h : ∀ i < 64, bit r.toInt i = bit r'.toInt i) : r = r' := by
  refine Int64.toBitVec_inj.mp (BitVec.eq_of_getLsbD_eq fun i hi => ?_)
  rw [← bit_toInt r hi, ← bit_toInt r' hi]
  exact h i hi

/-! ### What is to be computed -/

namespace IntegerOp

def Computes (a b r : Int) : IntegerOp → Prop
  | .add => r = wrap (a + b)
  | .subtract => r = wrap (a - b)
  | .multiply => r = wrap (a * b)
  | .divide => if b = 0 then r = 0 else r = wrap (a.tdiv b)
  | .modulus => if b = 0 then r = 0 else r = a - b * a.tdiv b
  | .shiftLeft => r = wrap (a * 2 ^ exactDistance b)
  | .shiftRightArithmetic => r = a / 2 ^ exactDistance b
  | .shiftRightLogical => r = wrap (a % 2 ^ 64 / 2 ^ exactDistance b)
  | .rotateLeft => ∀ i < 64, bit r ((i + exactDistance b) % 64) = bit a i
  -- the distance is less than 64, so this is `i` less the distance, modulo 64
  | .rotateRight => ∀ i < 64, bit r ((i + 64 - exactDistance b) % 64) = bit a i
  | .bitwiseAnd => ∀ i < 64, bit r i = (bit a i && bit b i)
  | .bitwiseOr => ∀ i < 64, bit r i = (bit a i || bit b i)
  | .bitwiseXor => ∀ i < 64, bit r i = (bit a i ^^ bit b i)

/-! ### Rotations move bits -/

theorem getLsbD_rotateLeft_add (x : BitVec 64) (hd : d < 64) (hi : i < 64) :
    (x.rotateLeft d).getLsbD ((i + d) % 64) = x.getLsbD i := by
  rw [BitVec.getLsbD_rotateLeft, Nat.mod_eq_of_lt hd]
  by_cases hover : i + d < 64
  · rw [Nat.mod_eq_of_lt hover]
    simp [hover, show ¬ i + d < d by omega]
  · have hmod : (i + d) % 64 = i + d - 64 := by omega
    rw [hmod]
    simp [show i + d - 64 < d by omega, show 64 - d + (i + d - 64) = i by omega]

theorem getLsbD_rotateRight_sub (x : BitVec 64) (hd : d < 64) (hi : i < 64) :
    (x.rotateRight d).getLsbD ((i + 64 - d) % 64) = x.getLsbD i := by
  rw [BitVec.getLsbD_rotateRight, Nat.mod_eq_of_lt hd]
  by_cases hunder : i < d
  · have hmod : (i + 64 - d) % 64 = i + 64 - d := by omega
    rw [hmod]
    simp [show ¬ i + 64 - d < 64 - d by omega, show i + 64 - d < 64 by omega,
      show i + 64 - d - (64 - d) = i by omega]
  · have hmod : (i + 64 - d) % 64 = i - d := by omega
    rw [hmod]
    simp [show i - d < 64 - d by omega, show d + (i - d) = i by omega]

/-! ### The operators compute it -/

theorem toInt_ne_zero (hb : b ≠ 0) : b.toInt ≠ 0 := mt (Int64.toInt_inj (y := 0)).mp hb

theorem toInt_modulus (a : Int64) (hb : b ≠ 0) :
    (modulus.apply a b).toInt = a.toInt.tmod b.toInt := by
  rw [toInt_apply, exact, if_neg (toInt_ne_zero hb)]

theorem computes_apply (o : IntegerOp) (a b : Int64) :
    o.Computes a.toInt b.toInt (o.apply a b).toInt := by
  have hexact := o.toInt_apply a b
  have hd := exactDistance_lt b.toInt
  cases o with
  | add | subtract | multiply | shiftLeft | shiftRightArithmetic => exact hexact
  | divide =>
    by_cases hb : b.toInt = 0
    · simpa only [Computes, exact, hb, if_true] using hexact
    · simpa only [Computes, exact, hb, if_false] using hexact
  | modulus =>
    by_cases hb : b.toInt = 0
    · simpa only [Computes, exact, hb, if_true] using hexact
    · simpa only [Computes, exact, hb, if_false, Int.tmod_def] using hexact
  | shiftRightLogical =>
    rw [Computes, hexact, exact, ← bits_emod]
    norm_cast
  | rotateLeft =>
    intro i hi
    rw [bit_toInt _ (Nat.mod_lt _ (by decide)), bit_toInt a hi, apply, distance_eq]
    exact getLsbD_rotateLeft_add _ hd hi
  | rotateRight =>
    intro i hi
    rw [bit_toInt _ (Nat.mod_lt _ (by decide)), bit_toInt a hi, apply, distance_eq]
    exact getLsbD_rotateRight_sub _ hd hi
  | bitwiseAnd =>
    intro i hi
    rw [bit_toInt _ hi, bit_toInt _ hi, bit_toInt _ hi, apply, Int64.toBitVec_and,
      BitVec.getLsbD_and]
  | bitwiseOr =>
    intro i hi
    rw [bit_toInt _ hi, bit_toInt _ hi, bit_toInt _ hi, apply, Int64.toBitVec_or,
      BitVec.getLsbD_or]
  | bitwiseXor =>
    intro i hi
    rw [bit_toInt _ hi, bit_toInt _ hi, bit_toInt _ hi, apply, Int64.toBitVec_xor,
      BitVec.getLsbD_xor]

/-- What is to be computed is one word only. -/
theorem Computes.unique {o : IntegerOp} {x y : Int} (h : o.Computes x y r.toInt)
    (h' : o.Computes x y r'.toInt) : r = r' := by
  have hd := exactDistance_lt y
  cases o with
  | add | subtract | multiply | shiftLeft | shiftRightArithmetic | shiftRightLogical =>
    exact Int64.toInt_inj.mp (h.trans h'.symm)
  | divide | modulus =>
    by_cases hy : y = 0
    · simp only [Computes, hy, if_true] at h h'
      exact Int64.toInt_inj.mp (h.trans h'.symm)
    · simp only [Computes, hy, if_false] at h h'
      exact Int64.toInt_inj.mp (h.trans h'.symm)
  | rotateLeft =>
    -- a rotation reaches every bit
    refine eq_of_bit_eq fun j hj => ?_
    have hi : (j + 64 - exactDistance y) % 64 < 64 := Nat.mod_lt _ (by decide)
    have hback : ((j + 64 - exactDistance y) % 64 + exactDistance y) % 64 = j := by omega
    rw [← hback, h _ hi, h' _ hi]
  | rotateRight =>
    refine eq_of_bit_eq fun j hj => ?_
    have hi : (j + exactDistance y) % 64 < 64 := Nat.mod_lt _ (by decide)
    have hback : ((j + exactDistance y) % 64 + 64 - exactDistance y) % 64 = j := by omega
    rw [← hback, h _ hi, h' _ hi]
  | bitwiseAnd | bitwiseOr | bitwiseXor =>
    exact eq_of_bit_eq fun i hi => (h i hi).trans (h' i hi).symm

/-! ### Traps -/

/-- A division that traps on zero. -/
def dividing (f : Int64 → Int64 → Int64) (a b : Int64) : Option Int64 :=
  if b = 0 then none else some (f a b)

/-- A shift or a rotation that traps on the width of a word and beyond. -/
def moving (f : BitVec 64 → Nat → BitVec 64) (a : Int64) (d : Nat) : Option Int64 :=
  if d < 64 then some (.ofBitVec (f a.toBitVec d)) else none

/-- The operators, made of divisions, shifts and rotations that trap. -/
def trapping : IntegerOp → Int64 → Int64 → Option Int64
  | .divide, a, b => if b = 0 then some 0 else dividing (· / ·) a b
  | .modulus, a, b => if b = 0 then some 0 else dividing (· % ·) a b
  | .shiftLeft, a, b => moving (· <<< ·) a (distance b)
  | .shiftRightArithmetic, a, b => moving .sshiftRight a (distance b)
  | .shiftRightLogical, a, b => moving (· >>> ·) a (distance b)
  | .rotateLeft, a, b => moving .rotateLeft a (distance b)
  | .rotateRight, a, b => moving .rotateRight a (distance b)
  | .add, a, b => some (a + b)
  | .subtract, a, b => some (a - b)
  | .multiply, a, b => some (a * b)
  | .bitwiseAnd, a, b => some (a &&& b)
  | .bitwiseOr, a, b => some (a ||| b)
  | .bitwiseXor, a, b => some (a ^^^ b)

theorem distance_lt (b : Int64) : distance b < 64 := Nat.mod_lt _ (by decide)

/-- **Nothing traps.**  A division is reached with a divisor other than zero only, and a shift or a
rotation with a distance below 64. -/
theorem trapping_eq (o : IntegerOp) (a b : Int64) : o.trapping a b = some (o.apply a b) := by
  cases o with
  | add | subtract | multiply | bitwiseAnd | bitwiseOr | bitwiseXor => rfl
  | shiftLeft | shiftRightArithmetic | shiftRightLogical | rotateLeft | rotateRight =>
    exact if_pos (distance_lt b)
  | divide | modulus =>
    by_cases hb : b = 0
    · simp only [trapping, apply, if_pos hb]
    · simp only [trapping, apply, dividing, if_neg hb]

/-! ### Division -/

/-- A remainder is zero or has the sign of the dividend, and is smaller than the divisor. -/
theorem modulus_bounded (a : Int64) (hb : b ≠ 0) :
    ((modulus.apply a b).toInt = 0 ∨ (modulus.apply a b).toInt.sign = a.toInt.sign) ∧
      (modulus.apply a b).toInt.natAbs < b.toInt.natAbs := by
  rw [toInt_modulus a hb]
  refine ⟨?_, ?_⟩
  · by_cases hdvd : b.toInt ∣ a.toInt
    · exact .inl (Int.tmod_eq_zero_of_dvd hdvd)
    · exact .inr (by rw [Int.sign_tmod, if_neg hdvd])
  · rw [Int.natAbs_tmod]
    exact Nat.mod_lt _ (Int.natAbs_pos.mpr (toInt_ne_zero hb))

/-- The quotient times the divisor, plus the remainder, is the dividend, although the product may
wrap. -/
theorem divide_mul_add_modulus (a : Int64) (hb : b ≠ 0) :
    add.apply (multiply.apply (divide.apply a b) b) (modulus.apply a b) = a := by
  have hdivide : (divide.apply a b).toInt = wrap (a.toInt.tdiv b.toInt) := by
    rw [toInt_apply, exact, if_neg (toInt_ne_zero hb)]
  have hlow := Int64.le_toInt a
  have hhigh := Int64.toInt_lt a
  rw [← Int64.toInt_inj]
  calc (add.apply (multiply.apply (divide.apply a b) b) (modulus.apply a b)).toInt
      = wrap (wrap (wrap (a.toInt.tdiv b.toInt) * b.toInt) + a.toInt.tmod b.toInt) := by
        rw [toInt_apply, exact, toInt_apply multiply, exact, hdivide, toInt_modulus a hb]
    _ = wrap (a.toInt.tdiv b.toInt * b.toInt + a.toInt.tmod b.toInt) := by
        simp only [wrap, Int.bmod_mul_bmod, Int.bmod_add_bmod]
    _ = wrap a.toInt := by rw [Int.mul_comm, Int.mul_tdiv_add_tmod]
    _ = a.toInt := Int.bmod_eq_of_le (by omega) (by omega)

/-- **Integer operators compute what they should.**  From two words an operator computes the one
word that stands for the result on exact integers, up to a multiple of `2^64`.  Division by zero
gives zero; a remainder by anything else is zero or has the sign of the dividend and is smaller than
the divisor, and quotient and remainder fit together, also where the quotient wraps.  Nothing traps,
and an operation on two integers always goes through. -/
theorem apply_computes_exactly :
    (∀ (o : IntegerOp) (a b r : Int64),
      o.Computes a.toInt b.toInt r.toInt ↔ r = o.apply a b) ∧
    (∀ a : Int64, divide.apply a 0 = 0 ∧ modulus.apply a 0 = 0) ∧
    (∀ a b : Int64, b ≠ 0 →
      ((modulus.apply a b).toInt = 0 ∨ (modulus.apply a b).toInt.sign = a.toInt.sign) ∧
      (modulus.apply a b).toInt.natAbs < b.toInt.natAbs ∧
      add.apply (multiply.apply (divide.apply a b) b) (modulus.apply a b) = a) ∧
    (divide.apply Int64.minValue (-1) = Int64.minValue ∧
      modulus.apply Int64.minValue (-1) = 0) ∧
    (∀ (o : IntegerOp) (a b : Int64), o.trapping a b = some (o.apply a b)) ∧
    ∀ (o : IntegerOp) (a b : Int64) (limits : Limits) (site : Site) (frame : Frame)
      (rest : Stack Value), frame.base ≤ rest.size → rest.size < limits.stackDepth →
      perform limits site frame ((rest.push (.integer a)).push (.integer b))
          (.binary (.integer o)) =
        .ok (.proceed frame (rest.push (.integer (o.apply a b)))) := by
  refine ⟨?_, ?_, ?_, ⟨by decide, by decide⟩, trapping_eq, ?_⟩
  · intro o a b r
    constructor
    · intro h
      exact h.unique (o.computes_apply a b)
    · rintro rfl
      exact o.computes_apply a b
  · intro a
    exact ⟨rfl, rfl⟩
  · intro a b hb
    obtain ⟨hsign, hlt⟩ := modulus_bounded a hb
    exact ⟨hsign, hlt, divide_mul_add_modulus a hb⟩
  · intro o a b limits site frame rest hbase hroom
    exact perform_of_proceeds (.binary (o := .integer o) (a := a) (b := b) hbase hroom)

/-- The only division whose quotient wraps, as a law and as an operation of the machine. -/
theorem division_of_minValue_fits :
    (-1 : Int64) ≠ 0 ∧
      add.apply (multiply.apply (divide.apply Int64.minValue (-1)) (-1))
        (modulus.apply Int64.minValue (-1)) = Int64.minValue ∧
      perform {} ⟨0, 0⟩ (.fresh 0 0 0)
          ((Stack.empty.push (.integer Int64.minValue)).push (.integer (-1)))
          (.binary (.integer .divide)) =
        .ok (.proceed (.fresh 0 0 0)
          (Stack.empty.push (.integer (divide.apply Int64.minValue (-1))))) := by
  have hne : (-1 : Int64) ≠ 0 := by decide
  obtain ⟨-, -, hlaws, -, -, hperform⟩ := apply_computes_exactly
  exact ⟨hne, (hlaws Int64.minValue (-1) hne).2.2,
    hperform .divide Int64.minValue (-1) {} ⟨0, 0⟩ (.fresh 0 0 0) .empty (by decide) (by decide)⟩

end IntegerOp

end StackMachine
