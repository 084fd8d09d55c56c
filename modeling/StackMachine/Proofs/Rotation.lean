import StackMachine.Proofs.Arithmetic

/-!
# Rotations

A rotation goes by a distance modulo 64, and this is the only thing about its second operand that
counts.  Distances add up and change sign as the operands do,

    distance (b + c) = (distance b + distance c) % 64,
    distance (0 - b) = (64 - distance b) % 64,

also where the sum of the operands wraps, because 64 divides `2^64`.  So to rotate twice is to
rotate by the sum (`rotateLeft_rotateLeft`) and to rotate right is to rotate left the other way
(`rotateRight_eq_rotateLeft`): both compare where a bit of the result comes from.  Undoing a
rotation needs no bits any more (`rotateRight_rotateLeft`).

A rotation is also the two shifts put together (`rotateLeft_eq_or`).  Where the distance is zero
both shifts leave the word as it is, and putting a word together with itself changes nothing.
-/

namespace StackMachine.IntegerOp

variable {i : Nat}

/-! ### Distances -/

theorem distance_add (b c : Int64) :
    distance (add.apply b c) = (distance b + distance c) % 64 := by
  rw [distance, distance, distance, apply, Int64.toBitVec_add, BitVec.toNat_add]
  omega

theorem distance_negate (b : Int64) :
    distance (subtract.apply 0 b) = (64 - distance b) % 64 := by
  have hlt : b.toBitVec.toNat < 2 ^ 64 := b.toBitVec.isLt
  have hzero : (0 : Int64).toBitVec.toNat = 0 := rfl
  rw [distance, distance, apply, Int64.toBitVec_sub, BitVec.toNat_sub, hzero]
  omega

/-! ### Where bits come from -/

theorem getLsbD_rotateLeft_apply (a b : Int64) (hi : i < 64) :
    (rotateLeft.apply a b).toBitVec.getLsbD i =
      a.toBitVec.getLsbD ((i + 64 - distance b) % 64) := by
  have hd : distance b < 64 := distance_lt b
  have hfrom : (i + 64 - distance b) % 64 < 64 := Nat.mod_lt _ (by decide)
  have hto : ((i + 64 - distance b) % 64 + distance b) % 64 = i := by omega
  have hrotate := getLsbD_rotateLeft_add a.toBitVec hd hfrom
  rwa [hto] at hrotate

theorem getLsbD_rotateRight_apply (a b : Int64) (hi : i < 64) :
    (rotateRight.apply a b).toBitVec.getLsbD i =
      a.toBitVec.getLsbD ((i + distance b) % 64) := by
  have hd : distance b < 64 := distance_lt b
  have hfrom : (i + distance b) % 64 < 64 := Nat.mod_lt _ (by decide)
  have hto : ((i + distance b) % 64 + 64 - distance b) % 64 = i := by omega
  have hrotate := getLsbD_rotateRight_sub a.toBitVec hd hfrom
  rwa [hto] at hrotate

/-! ### Rotations one after the other -/

theorem rotateLeft_zero (a : Int64) : rotateLeft.apply a 0 = a := by
  refine Int64.toBitVec_inj.mp (BitVec.eq_of_getLsbD_eq fun i hi => ?_)
  have hsame : (i + 64 - distance 0) % 64 = i := by
    rw [show distance 0 = 0 from rfl]
    omega
  rw [getLsbD_rotateLeft_apply a 0 hi, hsame]

theorem rotateLeft_rotateLeft (a b c : Int64) :
    rotateLeft.apply (rotateLeft.apply a b) c = rotateLeft.apply a (add.apply b c) := by
  refine Int64.toBitVec_inj.mp (BitVec.eq_of_getLsbD_eq fun i hi => ?_)
  have hb : distance b < 64 := distance_lt b
  have hc : distance c < 64 := distance_lt c
  have hfrom : (i + 64 - distance c) % 64 < 64 := Nat.mod_lt _ (by decide)
  rw [getLsbD_rotateLeft_apply _ c hi, getLsbD_rotateLeft_apply a b hfrom,
    getLsbD_rotateLeft_apply a _ hi, distance_add]
  congr 1
  omega

theorem rotateRight_eq_rotateLeft (a b : Int64) :
    rotateRight.apply a b = rotateLeft.apply a (subtract.apply 0 b) := by
  refine Int64.toBitVec_inj.mp (BitVec.eq_of_getLsbD_eq fun i hi => ?_)
  have hb : distance b < 64 := distance_lt b
  rw [getLsbD_rotateRight_apply a b hi, getLsbD_rotateLeft_apply a _ hi, distance_negate]
  congr 1
  omega

theorem rotateRight_rotateLeft (a b : Int64) :
    rotateRight.apply (rotateLeft.apply a b) b = a := by
  have hcancel : add.apply b (subtract.apply 0 b) = 0 := by
    rw [apply, apply, Int64.zero_sub, Int64.add_right_neg]
  calc rotateRight.apply (rotateLeft.apply a b) b
      = rotateLeft.apply (rotateLeft.apply a b) (subtract.apply 0 b) :=
        rotateRight_eq_rotateLeft _ b
    _ = rotateLeft.apply a (add.apply b (subtract.apply 0 b)) := rotateLeft_rotateLeft a b _
    _ = a := by rw [hcancel, rotateLeft_zero]

/-! ### Rotations and shifts -/

theorem rotateLeft_eq_or (a b : Int64) :
    rotateLeft.apply a b =
      bitwiseOr.apply (shiftLeft.apply a b)
        (shiftRightLogical.apply a (subtract.apply 0 b)) := by
  have hd : distance b < 64 := distance_lt b
  have hrotate : (rotateLeft.apply a b).toBitVec =
      a.toBitVec <<< distance b ||| a.toBitVec >>> (64 - distance b) := by
    rw [apply, Int64.toBitVec_ofBitVec, BitVec.rotateLeft_def, Nat.mod_eq_of_lt hd]
  have hshifts : (bitwiseOr.apply (shiftLeft.apply a b)
      (shiftRightLogical.apply a (subtract.apply 0 b))).toBitVec =
      a.toBitVec <<< distance b ||| a.toBitVec >>> ((64 - distance b) % 64) := by
    rw [← distance_negate]
    rfl
  refine Int64.toBitVec_inj.mp ?_
  rw [hrotate, hshifts]
  by_cases hzero : distance b = 0
  · -- on the left the second shift goes by 64 and leaves nothing, on the right it goes by 0
    have hout : a.toBitVec >>> 64 = 0 := BitVec.ushiftRight_eq_zero (Nat.le_refl 64)
    rw [hzero, hout]
    simp
  · rw [Nat.mod_eq_of_lt (by omega : 64 - distance b < 64)]

/-- **Rotations act on words.**  Rotating by nothing changes nothing, and rotating twice is rotating
by the sum; a rotation to the right undoes one to the left and is one by the opposite distance; and
a rotation is a shift to the left put together with a logical shift to the right by the opposite
distance.  All this holds for all distances, also where they are negative, exceed the width of a
word or wrap when they are added. -/
theorem rotations_act_on_words (a b c : Int64) :
    rotateLeft.apply a 0 = a ∧
    rotateRight.apply (rotateLeft.apply a b) b = a ∧
    rotateLeft.apply (rotateLeft.apply a b) c = rotateLeft.apply a (add.apply b c) ∧
    rotateRight.apply a b = rotateLeft.apply a (subtract.apply 0 b) ∧
    rotateLeft.apply a b =
      bitwiseOr.apply (shiftLeft.apply a b)
        (shiftRightLogical.apply a (subtract.apply 0 b)) :=
  ⟨rotateLeft_zero a, rotateRight_rotateLeft a b, rotateLeft_rotateLeft a b c,
    rotateRight_eq_rotateLeft a b, rotateLeft_eq_or a b⟩

end StackMachine.IntegerOp
