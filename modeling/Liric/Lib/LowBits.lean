import Mathlib.Data.BitVec

/-!
# The low bits of results

What the low `w` bits of a result of wider arithmetic are, as a function of the low bits
of the operands. Sums, products and logic need nothing of the bits above; a quotient needs
operands that have been extended.
-/
namespace Liric.Lib
open BitVec

variable {v w : Nat}

theorem setWidth_sub (x y : BitVec v) (h : w ≤ v) :
    (x - y).setWidth w = x.setWidth w - y.setWidth w := by
  rw [BitVec.sub_eq_add_neg, setWidth_add _ _ h, setWidth_neg_of_le h, BitVec.sub_eq_add_neg]

/-- The low bits as a signed number. -/
theorem toInt_low (x : BitVec v) (h : w ≤ v) : (x.setWidth w).toInt = x.toInt.bmod (2 ^ w) := by
  rw [toInt_setWidth, toInt_eq_toNat_bmod, Int.bmod_bmod_of_dvd]
  exact pow_dvd_pow 2 h

variable {b : BitVec w}

theorem setWidth_sdiv {x y : BitVec v} {a : BitVec w} (h : w ≤ v) (hx : x.toInt = a.toInt)
    (hy : y.toInt = b.toInt) : (x.sdiv y).setWidth w = a.sdiv b := by
  apply eq_of_toInt_eq
  rw [toInt_low _ h, toInt_sdiv, toInt_sdiv, hx, hy, Int.bmod_bmod_of_dvd]
  exact pow_dvd_pow 2 h

/-- The remainder is what the quotient leaves. -/
theorem sub_sdiv_mul (x y : BitVec v) : x - x.sdiv y * y = x.srem y := by
  apply eq_of_toInt_eq
  rw [toInt_sub, toInt_mul, toInt_sdiv, Int.bmod_mul_bmod, Int.sub_bmod_bmod, toInt_srem]
  have hrem : x.toInt - x.toInt.tdiv y.toInt * y.toInt = x.toInt.tmod y.toInt := by
    have h := Int.mul_tdiv_add_tmod x.toInt y.toInt
    rw [Int.mul_comm] at h
    omega
  rw [hrem, ← toInt_srem, toInt_bmod_cancel]

theorem setWidth_srem {x y : BitVec v} {a : BitVec w} (h : w ≤ v) (hx : x.toInt = a.toInt)
    (hy : y.toInt = b.toInt) : (x.srem y).setWidth w = a.srem b := by
  apply eq_of_toInt_eq
  rw [toInt_low _ h, toInt_srem, toInt_srem, hx, hy, ← toInt_srem, toInt_bmod_cancel]

theorem sub_udiv_mul (x y : BitVec v) : x - x / y * y = x % y := by
  have h : x / y * y + x % y = x := by
    apply eq_of_toNat_eq
    have hdiv := Nat.div_add_mod x.toNat y.toNat
    rw [Nat.mul_comm] at hdiv
    simp only [toNat_add, toNat_mul, toNat_udiv, toNat_umod, Nat.mod_add_mod, hdiv]
    exact Nat.mod_eq_of_lt x.isLt
  rw [sub_eq_iff_eq_add, BitVec.add_comm]
  exact h.symm

/-- An amount below the number of low bits is seen in them. -/
theorem low_amount {q : BitVec v} {n : Nat} (hq : q.setWidth w = b)
    (hn : n ∣ 2 ^ w) (hb : b.toNat < n) : q.toNat % n = b.toNat := by
  rw [← hq, toNat_setWidth] at *
  rw [← Nat.mod_mod_of_dvd q.toNat hn]
  exact Nat.mod_eq_of_lt hb

theorem toNat_one_shiftLeft {w : Nat} (h : w < v) : (1#v <<< w).toNat = 2 ^ w := by
  have hpow : 2 ^ w < 2 ^ v := Nat.pow_lt_pow_right (by decide) h
  have hone : 1 < 2 ^ v := lt_of_le_of_lt Nat.one_le_two_pow hpow
  rw [toNat_shiftLeft, toNat_ofNat, Nat.mod_eq_of_lt hone, Nat.one_shiftLeft, Nat.mod_eq_of_lt hpow]

/-- A mask of low bits keeps them. -/
theorem and_lowMask (x : BitVec v) (h : w < v) :
    x &&& ((1#v <<< w) - 1#v) = (x.setWidth w).setWidth v := by
  have hone : (1#v).toNat = 1 := toNat_one (by omega)
  have hle : 1#v ≤ 1#v <<< w := by
    rw [le_def, toNat_one_shiftLeft h, hone]
    exact Nat.one_le_two_pow
  apply eq_of_toNat_eq
  rw [toNat_and, toNat_sub_of_le hle, toNat_one_shiftLeft h, hone,
    Nat.and_two_pow_sub_one_eq_mod, toNat_setWidth, toNat_setWidth]
  refine (Nat.mod_eq_of_lt ?_).symm
  exact lt_of_lt_of_le (Nat.mod_lt _ (Nat.two_pow_pos w))
    (Nat.pow_le_pow_right (by decide) (Nat.le_of_lt h))

theorem xor_two_pow {k w : Nat} (h : k < 2 ^ w) : k ^^^ 2 ^ w = 2 ^ w + k := by
  have hor : 2 ^ w + k = 2 ^ w ||| k := by simpa using Nat.two_pow_add_eq_or_of_lt h 1
  rw [hor]
  apply Nat.eq_of_testBit_eq
  intro j
  rw [Nat.testBit_xor, Nat.testBit_or, Nat.testBit_two_pow]
  by_cases hj : w = j
  · subst hj
    simp [Nat.testBit_lt_two_pow h]
  · simp [hj]

/-- Flipping the sign bit and subtracting it again extends the sign. -/
theorem xor_sub_sign (x : BitVec (w + 1)) (h : w + 1 < v) :
    (x.setWidth v ^^^ 1#v <<< w) - 1#v <<< w = x.signExtend v := by
  have hx := x.isLt
  have hpow : 2 ^ (w + 1) < 2 ^ v := Nat.pow_lt_pow_right (by decide) h
  have hwide : (x.setWidth v).toNat = x.toNat := by
    rw [toNat_setWidth, Nat.mod_eq_of_lt (hx.trans hpow)]
  have hsign := toNat_one_shiftLeft (v := v) (w := w) (by omega)
  have hmsb : x.msb = decide (2 ^ w ≤ x.toNat) := by
    rw [msb_eq_decide, Nat.add_sub_cancel]
  apply eq_of_toNat_eq
  rw [toNat_sub, toNat_xor, hwide, hsign, toNat_signExtend, hwide, hmsb]
  by_cases hneg : 2 ^ w ≤ x.toNat
  · obtain ⟨k, hk⟩ : ∃ k, x.toNat = 2 ^ w + k := ⟨x.toNat - 2 ^ w, by omega⟩
    have hxor : x.toNat ^^^ 2 ^ w = k := by
      rw [hk, ← xor_two_pow (by omega), Nat.xor_assoc, Nat.xor_self, Nat.xor_zero]
    rw [hxor, if_pos (decide_eq_true hneg), Nat.mod_eq_of_lt (by omega)]
    omega
  · have hxor : x.toNat ^^^ 2 ^ w = 2 ^ w + x.toNat := xor_two_pow (by omega)
    have hsum : 2 ^ v - 2 ^ w + (2 ^ w + x.toNat) = x.toNat + 2 ^ v := by omega
    rw [hxor, if_neg (by simpa using hneg), hsum, Nat.add_mod_right,
      Nat.mod_eq_of_lt (hx.trans hpow)]
    rfl

variable (x : BitVec w)

theorem setWidth_signExtend_self (h : w ≤ v) : (x.signExtend v).setWidth w = x := by
  apply eq_of_getLsbD_eq
  intro i hi
  rw [getLsbD_setWidth, getLsbD_signExtend]
  simp [hi, show i < v by omega]

theorem setWidth_zeroExtend_self (h : w ≤ v) : (x.setWidth v).setWidth w = x := by
  rw [setWidth_setWidth_of_le _ h, setWidth_eq]

theorem toNat_zeroExtend (h : w ≤ v) : (x.setWidth v).toNat = x.toNat := by
  rw [toNat_setWidth]
  exact Nat.mod_eq_of_lt (lt_of_lt_of_le x.isLt (Nat.pow_le_pow_right (by decide) h))

theorem setWidth_ushiftRight_zeroExtend (h : w ≤ v) (n : Nat) :
    ((x.setWidth v) >>> n).setWidth w = x >>> n := by
  apply eq_of_toNat_eq
  rw [toNat_setWidth, toNat_ushiftRight, toNat_zeroExtend x h, toNat_ushiftRight]
  refine Nat.mod_eq_of_lt (lt_of_le_of_lt ?_ x.isLt)
  exact Nat.shiftRight_le x.toNat n

theorem setWidth_sshiftRight_signExtend (h : w ≤ v) (n : Nat) :
    ((x.signExtend v).sshiftRight n).setWidth w = x.sshiftRight n := by
  apply eq_of_toInt_eq
  rw [toInt_low _ h, toInt_sshiftRight, toInt_signExtend_of_le h,
    ← toInt_sshiftRight, toInt_bmod_cancel]

theorem setWidth_udiv_zeroExtend (x y : BitVec w) (h : w ≤ v) :
    ((x.setWidth v) / (y.setWidth v)).setWidth w = x / y := by
  apply eq_of_toNat_eq
  rw [toNat_setWidth, toNat_udiv, toNat_zeroExtend x h, toNat_zeroExtend y h, toNat_udiv]
  exact Nat.mod_eq_of_lt (lt_of_le_of_lt (Nat.div_le_self _ _) x.isLt)

theorem setWidth_umod_zeroExtend (x y : BitVec w) (h : w ≤ v) :
    ((x.setWidth v) % (y.setWidth v)).setWidth w = x % y := by
  apply eq_of_toNat_eq
  rw [toNat_setWidth, toNat_umod, toNat_zeroExtend x h, toNat_zeroExtend y h, toNat_umod]
  exact Nat.mod_eq_of_lt (lt_of_le_of_lt (Nat.mod_le _ _) x.isLt)

end Liric.Lib
