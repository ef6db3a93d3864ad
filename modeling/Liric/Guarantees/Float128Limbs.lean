import Liric.Source.Float128
import Mathlib.Tactic.Ring

/-!
# Two-limb integers are 128-bit integers

Every limb operation of the soft float is read as an operation on the number it
stands for, modulo `2 ^ 128`.
-/
namespace Liric.Guarantees.Float128
open Source.Float128 BitVec

/-- The number two limbs stand for. -/
def limbs (a : U128) : Nat := 2 ^ 64 * a.hi.toNat + a.lo.toNat

theorem limbs_lt (a : U128) : limbs a < 2 ^ 128 := by
  have hlo := a.lo.isLt
  have hhi := a.hi.isLt
  unfold limbs
  omega

theorem limbs_inj {a b : U128} (h : limbs a = limbs b) : a = b := by
  unfold limbs at h
  ext1
  · exact eq_of_toNat_eq (by omega)
  · exact eq_of_toNat_eq (by omega)

@[simp] theorem limbs_zero : limbs u128Zero = 0 := rfl
@[simp] theorem limbs_one : limbs u128One = 1 := rfl

variable (a b : U128)

theorem limbs_add : limbs (u128Add a b) = (limbs a + limbs b) % 2 ^ 128 := by
  have hla := a.lo.isLt
  have hlb := b.lo.isLt
  simp only [limbs, u128Add, lt_def, toNat_add]
  split <;> simp only [toNat_ofNat] <;> omega

theorem limbs_sub (h : limbs b ≤ limbs a) : limbs (u128Sub a b) = limbs a - limbs b := by
  simp only [limbs] at h
  simp only [limbs, u128Sub, lt_def, toNat_sub]
  split <;> simp only [toNat_ofNat] <;> omega

theorem limbs_inc (a : U128) (h : limbs a + 1 < 2 ^ 128) : limbs (u128Inc a) = limbs a + 1 := by
  simp only [limbs] at h
  simp only [limbs, u128Inc, ← toNat_inj, toNat_add, toNat_ofNat]
  split <;> simp only [toNat_ofNat] <;> omega

theorem testBit_limbs (a : U128) (j : Nat) :
    (limbs a).testBit j = if j < 64 then a.lo.toNat.testBit j else a.hi.toNat.testBit (j - 64) :=
  Nat.testBit_two_pow_mul_add a.hi.toNat a.lo.isLt j

theorem limbs_and : limbs (u128And a b) = limbs a &&& limbs b := by
  apply Nat.eq_of_testBit_eq
  intro j
  rw [Nat.testBit_and, testBit_limbs, testBit_limbs, testBit_limbs]
  simp only [u128And, toNat_and]
  split <;> rw [Nat.testBit_and]

theorem limbs_or : limbs (u128Or a b) = limbs a ||| limbs b := by
  apply Nat.eq_of_testBit_eq
  intro j
  rw [Nat.testBit_or, testBit_limbs, testBit_limbs, testBit_limbs]
  simp only [u128Or, toNat_or]
  split <;> rw [Nat.testBit_or]

/-- Shifting left loses what leaves the upper limb. -/
theorem limbs_shl (a : U128) (n : Nat) : limbs (u128Shl a n) = limbs a * 2 ^ n % 2 ^ 128 := by
  have hlt := limbs_lt a
  unfold u128Shl
  split
  · rename_i hn
    obtain rfl : n = 0 := by omega
    rw [pow_zero, mul_one, Nat.mod_eq_of_lt hlt]
  split
  · rename_i hn
    obtain ⟨k, rfl⟩ : ∃ k, n = 128 + k := ⟨n - 128, by omega⟩
    rw [limbs_zero, pow_add, ← mul_assoc, mul_right_comm, Nat.mul_mod_left]
  split
  · rename_i hn
    obtain ⟨k, rfl⟩ : ∃ k, n = 64 + k := ⟨n - 64, by omega⟩
    rw [show ((64 + k : Nat) - 64 : Int).toNat = k by omega]
    simp only [limbs, toNat_shiftLeft, Nat.shiftLeft_eq, toNat_ofNat]
    rw [show (2 ^ 64 * a.hi.toNat + a.lo.toNat) * 2 ^ (64 + k) =
      2 ^ 128 * (a.hi.toNat * 2 ^ k) + 2 ^ 64 * (a.lo.toNat * 2 ^ k) by rw [pow_add]; ring]
    omega
  · rename_i hpos hlow
    rw [show ((n : Int)).toNat = n by omega, show ((64 : Int) - n).toNat = 64 - n by omega]
    apply Nat.eq_of_testBit_eq
    intro j
    rw [testBit_limbs, Nat.testBit_mod_two_pow, Nat.testBit_mul_two_pow]
    simp only [toNat_or, toNat_shiftLeft, toNat_ushiftRight, Nat.testBit_or,
      Nat.testBit_mod_two_pow, Nat.testBit_shiftLeft, Nat.testBit_shiftRight, testBit_limbs]
    by_cases hj : j < 64
    · by_cases hjn : n ≤ j
      · simp [hj, hjn, show j < 128 by omega, show j - n < 64 by omega]
      · simp [hj, hjn]
    · by_cases hj128 : j < 128
      · by_cases hjn : n ≤ j - 64
        · have hzero : a.lo.toNat.testBit (64 - n + (j - 64)) = false :=
            Nat.testBit_lt_two_pow (lt_of_lt_of_le a.lo.isLt
              (Nat.pow_le_pow_right (by decide) (by omega)))
          simp [hj, hj128, hjn, show n ≤ j by omega, show ¬ j - n < 64 by omega, hzero,
            show j - 64 < 64 by omega, show j - 64 - n = j - n - 64 by omega]
        · simp [hj, hj128, hjn, show n ≤ j by omega, show j - n < 64 by omega,
            show 64 - n + (j - 64) = j - n by omega]
      · have hzero : a.lo.toNat.testBit (64 - n + (j - 64)) = false :=
          Nat.testBit_lt_two_pow (lt_of_lt_of_le a.lo.isLt
            (Nat.pow_le_pow_right (by decide) (by omega)))
        simp [hj, hj128, show ¬ j - 64 < 64 by omega, hzero]

theorem limbs_shr (a : U128) (n : Nat) : limbs (u128Shr a n) = limbs a / 2 ^ n := by
  have hlt := limbs_lt a
  unfold u128Shr
  split
  · rename_i hn
    obtain rfl : n = 0 := by omega
    rw [pow_zero, Nat.div_one]
  split
  · rename_i hn
    rw [limbs_zero]
    exact (Nat.div_eq_of_lt (lt_of_lt_of_le hlt
      (Nat.pow_le_pow_right (by decide) (by omega)))).symm
  split
  · rename_i hn
    obtain ⟨k, rfl⟩ : ∃ k, n = 64 + k := ⟨n - 64, by omega⟩
    rw [show ((64 + k : Nat) - 64 : Int).toNat = k by omega]
    have hlo : (2 ^ 64 * a.hi.toNat + a.lo.toNat) / 2 ^ 64 = a.hi.toNat := by
      have := a.lo.isLt
      omega
    simp only [limbs, toNat_ushiftRight, Nat.shiftRight_eq_div_pow, toNat_ofNat]
    rw [pow_add, ← Nat.div_div_eq_div_mul, hlo]
    omega
  · rename_i hpos hlow
    rw [show ((n : Int)).toNat = n by omega, show ((64 : Int) - n).toNat = 64 - n by omega]
    apply Nat.eq_of_testBit_eq
    intro j
    rw [testBit_limbs, Nat.testBit_div_two_pow, testBit_limbs]
    simp only [toNat_or, toNat_shiftLeft, toNat_ushiftRight,
      Nat.testBit_or, Nat.testBit_mod_two_pow, Nat.testBit_shiftLeft, Nat.testBit_shiftRight]
    by_cases hj : j < 64
    · by_cases hjn : j + n < 64
      · simp [hj, hjn, show ¬ 64 - n ≤ j by omega, show n + j = j + n by omega]
      · have hzero : a.lo.toNat.testBit (n + j) = false :=
          Nat.testBit_lt_two_pow (lt_of_lt_of_le a.lo.isLt
            (Nat.pow_le_pow_right (by decide) (by omega)))
        simp [hj, hjn, hzero, show 64 ≤ j + n by omega, show j - (64 - n) = j + n - 64 by omega]
    · simp [hj, show ¬ j + n < 64 by omega, show n + (j - 64) = j + n - 64 by omega]

theorem limbs_shl1 (a : U128) : limbs (u128Shl1 a) = limbs a * 2 % 2 ^ 128 := by
  have h := limbs_shl a 1
  have heq : u128Shl a (1 : Nat) = u128Shl1 a := by
    rw [u128Shl, if_neg (by decide), if_neg (by decide), if_neg (by decide)]
    rfl
  rwa [heq, pow_one] at h

theorem u128Gt_iff : u128Gt a b = true ↔ limbs b < limbs a := by
  have hla := a.lo.isLt
  have hlb := b.lo.isLt
  simp only [u128Gt, limbs, Bool.or_eq_true, Bool.and_eq_true, decide_eq_true_eq, beq_iff_eq,
    lt_def, ← toNat_inj]
  omega

theorem u128Gte_iff : u128Gte a b = true ↔ limbs b ≤ limbs a := by
  have hla := a.lo.isLt
  have hlb := b.lo.isLt
  simp only [u128Gte, limbs, Bool.or_eq_true, Bool.and_eq_true, decide_eq_true_eq, beq_iff_eq,
    lt_def, le_def, ← toNat_inj]
  omega

theorem u128Lt_iff : u128Lt a b = true ↔ limbs a < limbs b := u128Gt_iff b a

theorem u128Eq_iff : u128Eq a b = true ↔ limbs a = limbs b := by
  have hla := a.lo.isLt
  have hlb := b.lo.isLt
  simp only [u128Eq, limbs, Bool.and_eq_true, beq_iff_eq, ← toNat_inj]
  omega

theorem u128IsZero_iff (a : U128) : u128IsZero a = true ↔ limbs a = 0 := by
  simp only [u128IsZero, limbs, Bool.and_eq_true, beq_iff_eq, ← toNat_inj, toNat_ofNat]
  omega

/-- Leading zeros, as the place of the leading bit. -/
theorem u128Clz_eq {a : U128} (h : limbs a ≠ 0) : u128Clz a = 127 - (Nat.log 2 (limbs a) : Int) := by
  have hlo := a.lo.isLt
  unfold u128Clz lfClz64
  by_cases hhi : a.hi = 0#64
  · have hval : limbs a = a.lo.toNat := by simp [limbs, hhi]
    have hne : a.lo ≠ 0#64 := by
      rintro hzero
      rw [hval, hzero] at h
      exact h rfl
    simp only [hhi, ne_eq, not_true_eq_false, if_false, hne, not_false_eq_true, if_true, hval]
    omega
  · have hpos : a.hi.toNat ≠ 0 := by
      rintro hzero
      exact hhi (eq_of_toNat_eq hzero)
    have hlog : Nat.log 2 (limbs a) = Nat.log 2 a.hi.toNat + 64 := by
      have hdiv : limbs a / 2 ^ 64 = a.hi.toNat := by unfold limbs; omega
      have hle : 64 ≤ Nat.log 2 (limbs a) :=
        Nat.le_log_of_pow_le (by decide) (by unfold limbs; omega)
      rw [← hdiv, Nat.log_div_base_pow]
      omega
    simp only [hhi, ne_eq, not_false_eq_true, if_true, if_false, hlog]
    push_cast
    omega

end Liric.Guarantees.Float128
