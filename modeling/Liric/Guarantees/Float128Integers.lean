import Liric.Guarantees.Float128Conversions
import Liric.Lib.Padding

/-!
# Integers and truncation

An integer of 32 or 64 bits has its leading bit moved to place 112, so it is stored
exactly. On the way back the bits behind the point are dropped, and what does not fit
saturates; the least integer is one of the numbers that saturate, and comes out right.
-/
namespace Liric.Guarantees.Float128
open Source.Float128 Lib Int
open Nat (log mod_eq_of_lt)

variable {v : LrF128} {w : Nat}

/-- The integer next to `x` on the side of zero. -/
def truncated (x : ℚ) : ℤ := if 0 ≤ x then ⌊x⌋ else ⌈x⌉

def signedInt (sign : Bool) (n : Nat) : ℤ := if sign then -(n : ℤ) else n

theorem truncated_signed (sign : Bool) {x : ℚ} (hx : 0 ≤ x) :
    truncated (signed sign x) = signedInt sign ⌊x⌋.toNat := by
  have hfloor : ((⌊x⌋.toNat : ℕ) : ℤ) = ⌊x⌋ := toNat_of_nonneg (floor_nonneg.2 hx)
  cases sign with
  | false =>
    rw [truncated, signed, signedInt, if_neg Bool.false_ne_true, if_neg Bool.false_ne_true,
      if_pos hx, hfloor]
  | true =>
    rw [truncated, signed, signedInt, if_pos rfl, if_pos rfl, hfloor]
    split
    · rename_i hneg
      obtain rfl : x = 0 := by linarith
      simp
    · exact ceil_neg

/-- The magnitude without its fraction bits. -/
theorem floor_magnitude (hmax : exponent v ≤ 112) :
    ⌊magnitude v⌋.toNat = significand v / 2 ^ (112 - exponent v).toNat := by
  obtain ⟨n, hn⟩ : ∃ n : Nat, exponent v - 112 = -(n : ℤ) := ⟨(112 - exponent v).toNat, by omega⟩
  rw [magnitude, hn, zpow_neg, zpow_natCast, ← div_eq_mul_inv,
    show (112 - exponent v).toNat = n by omega]
  have h := Rat.floor_natCast_div_natCast (significand v) (2 ^ n)
  push_cast at h
  rw [h]
  exact_mod_cast toNat_natCast _

theorem significand_ge_of_exponent (h : exponent v ≠ -16382) : 2 ^ 112 ≤ significand v := by
  by_contra hlt
  exact h (exponent_of_significand_lt (not_le.1 hlt))

/-- A word moved so that its leading bit comes to place 112. -/
theorem limbs_leading {n : Nat} {x : BitVec 64} (hx : x.toNat = n) (hn : n ≠ 0) :
    limbs (u128Shl (u128FromU64 x) (112 - (log 2 n : Int))) = n * 2 ^ (112 - log 2 n) ∧
      2 ^ 112 ≤ n * 2 ^ (112 - log 2 n) ∧ n * 2 ^ (112 - log 2 n) < 2 ^ 113 := by
  have hlow := Nat.pow_log_le_self 2 hn
  have hhigh := Nat.lt_pow_succ_log_self (by decide : 1 < 2) n
  have hlog : log 2 n < 64 := Nat.log_lt_of_lt_pow hn (by omega)
  have hsplit : ∀ k, 2 ^ (log 2 n + k) * 2 ^ (112 - log 2 n) = 2 ^ (112 + k) := by
    intro k
    rw [← pow_add]
    congr 1
    omega
  have hbound : n * 2 ^ (112 - log 2 n) < 2 ^ 113 := by
    rw [← hsplit 1]
    exact Nat.mul_lt_mul_of_pos_right hhigh (Nat.two_pow_pos _)
  refine ⟨?_, ?_, hbound⟩
  · have hshift : (112 - (log 2 n : Int)) = ((112 - log 2 n : Nat) : Int) := by omega
    rw [hshift, limbs_shl_fromU64 (by rw [hx]; omega), hx]
  · rw [← hsplit 0]
    exact Nat.mul_le_mul_right _ hlow

/-- What both conversions pack: sign and magnitude of the integer. -/
theorem encodes_integer {z : ℤ} {x : BitVec 64} (hx : x.toNat = z.natAbs) (hz : z ≠ 0) :
    Encodes (f128PackParts (decide (z < 0)) (log 2 z.natAbs)
      (u128Shl (u128FromU64 x) (112 - (log 2 z.natAbs : Int)))) z := by
  have hn : z.natAbs ≠ 0 := natAbs_ne_zero.2 hz
  obtain ⟨hlimbs, hlow, hhigh⟩ := limbs_leading hx hn
  have hlog : log 2 z.natAbs < 64 := Nat.log_lt_of_lt_pow hn (by have := x.isLt; omega)
  rw [← hlimbs] at hlow hhigh
  obtain ⟨hfin, hsign, hexp, hsig⟩ :=
    pack_fields hlow hhigh (by omega : (-16382 : Int) ≤ log 2 z.natAbs) (by omega)
      (decide (z < 0))
  refine ⟨hfin, ?_⟩
  rw [toRat_of_parts hsign hexp hsig, hlimbs]
  have hsize : ((z.natAbs * 2 ^ (112 - log 2 z.natAbs) : Nat) : ℚ) *
      2 ^ ((log 2 z.natAbs : ℤ) - 112) = z.natAbs := by
    push_cast
    rw [mul_assoc, ← zpow_natCast (2 : ℚ) (112 - log 2 z.natAbs), ← zpow_add₀ two_ne_zero,
      show ((112 - log 2 z.natAbs : Nat) : ℤ) + ((log 2 z.natAbs : ℤ) - 112) = 0 by omega,
      zpow_zero, mul_one]
  rw [hsize]
  by_cases hneg : z < 0
  · rw [signed, if_pos (decide_eq_true hneg)]
    have : ((z.natAbs : ℤ) : ℚ) = ((-z : ℤ) : ℚ) := by
      congr 1
      omega
    rw [← cast_natCast, this]
    push_cast
    ring
  · rw [signed, if_neg (by simpa using hneg), ← cast_natCast]
    congr 1
    omega

theorem encodes_makeZero_int (sign : Bool) : Encodes (f128MakeZero sign) ((0 : ℤ) : ℚ) := by
  rw [cast_zero]
  exact encodes_makeZero sign

theorem slt_zero_eq (x : BitVec w) : x.slt 0#w = decide (x.toInt < 0) := by
  rw [BitVec.slt, BitVec.toInt_zero]

/-- The magnitude of a signed word, with the wraparound of the least one. -/
theorem toNat_abs (x : BitVec w) :
    (if decide (x.toInt < 0) then -x else x).toNat = x.toInt.natAbs := by
  have hlt := x.isLt
  have hcases := BitVec.toInt_eq_toNat_cond x
  by_cases hneg : x.toInt < 0
  · rw [if_pos (decide_eq_true hneg), BitVec.toNat_neg]
    split at hcases
    · omega
    · rw [mod_eq_of_lt (by omega)]
      omega
  · rw [if_neg (by simpa using hneg)]
    split at hcases <;> omega

theorem f128FromI64_exact (x : BitVec 64) : Encodes (f128FromI64 x) (x.toInt : ℤ) := by
  by_cases hx : x = 0#64
  · rw [f128FromI64, if_pos hx, hx]
    exact encodes_makeZero_int false
  · have hne : x.toInt ≠ 0 := fun h => hx (BitVec.eq_of_toInt_eq (by rw [h, BitVec.toInt_zero]))
    have habs := toNat_abs x
    have hlog : 63 - lfClz64 (if decide (x.toInt < 0) then -x else x) =
        (log 2 x.toInt.natAbs : Int) := by
      have hnz : (if decide (x.toInt < 0) then -x else x) ≠ 0#64 := by
        intro h
        rw [h] at habs
        exact hne (natAbs_eq_zero.1 habs.symm)
      rw [lfClz64, if_neg hnz, habs]
      ring
    simp only [f128FromI64, if_neg hx, slt_zero_eq, hlog]
    exact encodes_integer habs hne

theorem f128FromI32_exact (x : BitVec 32) : Encodes (f128FromI32 x) (x.toInt : ℤ) := by
  by_cases hx : x = 0#32
  · rw [f128FromI32, if_pos hx, hx]
    exact encodes_makeZero_int false
  · have hne : x.toInt ≠ 0 := fun h => hx (BitVec.eq_of_toInt_eq (by rw [h, BitVec.toInt_zero]))
    have hwide : (x.signExtend 64).toInt = x.toInt := BitVec.toInt_signExtend_of_le (by decide)
    have habs := toNat_abs (x.signExtend 64)
    rw [hwide] at habs
    have hbound : x.toInt.natAbs ≤ 2 ^ 31 := by
      have h₁ := BitVec.le_toInt x
      have h₂ := BitVec.toInt_lt (x := x)
      omega
    have hlog : 31 - lfClz32 ((if decide (x.toInt < 0) then -(x.signExtend 64)
        else x.signExtend 64).setWidth 32) = (log 2 x.toInt.natAbs : Int) := by
      have hnarrow : ((if decide (x.toInt < 0) then -(x.signExtend 64)
          else x.signExtend 64).setWidth 32).toNat = x.toInt.natAbs := by
        rw [BitVec.toNat_setWidth, habs]
        exact mod_eq_of_lt (by omega)
      have hnz : (if decide (x.toInt < 0) then -(x.signExtend 64)
          else x.signExtend 64).setWidth 32 ≠ 0#32 := by
        intro h
        rw [h] at hnarrow
        exact hne (natAbs_eq_zero.1 hnarrow.symm)
      rw [lfClz32, if_neg hnz, hnarrow]
      ring
    simp only [f128FromI32, if_neg hx, slt_zero_eq, hlog]
    exact encodes_integer habs hne

theorem toInt_neg_of_lt {x : BitVec w} (h : 2 * x.toNat < 2 ^ w) : (-x).toInt = -(x.toNat : ℤ) := by
  rw [BitVec.toInt_neg, BitVec.toInt_eq_toNat_of_lt h]
  apply bmod_eq_of_le <;> omega

theorem two_pow_le_magnitude (h : exponent v ≠ -16382) : 2 ^ exponent v ≤ magnitude v := by
  have hsig : ((2 ^ 112 : Nat) : ℚ) ≤ significand v := by
    exact_mod_cast significand_ge_of_exponent h
  calc (2 : ℚ) ^ exponent v = 2 ^ (112 : ℤ) * 2 ^ (exponent v - 112) := by
        rw [← zpow_add₀ two_ne_zero]
        congr 1
        ring
    _ ≤ magnitude v := mul_le_mul_of_nonneg_right (by exact_mod_cast hsig) (by positivity)

/-- The conversion truncates toward zero, where the result has a place. -/
theorem f128ToInt_truncates (hw : 2 ≤ w) (hw' : w ≤ 64) (hfin : IsFinite v)
    (hlow : -(2 ^ (w - 1)) ≤ truncated (toRat v)) (hhigh : truncated (toRat v) < 2 ^ (w - 1)) :
    (f128ToInt w (w - 2) v).toInt = truncated (toRat v) := by
  rw [toRat_eq_signed, truncated_signed _ (magnitude_nonneg v)] at hlow hhigh ⊢
  by_cases hsig : significand v = 0
  · have hzero : magnitude v = 0 := by rw [magnitude, hsig, Nat.cast_zero, zero_mul]
    simp [f128ToInt, f128Unpack_zero hsig, hzero, signedInt]
  obtain ⟨mant, hrun, hmant⟩ := f128Unpack_finite hfin hsig
  simp only [f128ToInt, hrun, Bool.false_eq_true, Bool.or_self, if_false]
  by_cases hneg : exponent v < 0
  · have hfloor : ⌊magnitude v⌋.toNat = 0 := by
      rw [floor_magnitude (by omega)]
      exact Nat.div_eq_of_lt (lt_of_lt_of_le (significand_lt v)
        (Nat.pow_le_pow_right (by decide) (by omega)))
    rw [if_pos hneg, hfloor]
    simp [signedInt]
  rw [if_neg hneg]
  by_cases hbig : exponent v > (w : Int) - 2
  · -- the only number left that has a place is the least integer
    have hmag : (2 : ℚ) ^ (w - 1) ≤ magnitude v := by
      refine le_trans ?_ (two_pow_le_magnitude (v := v) (by omega))
      rw [← zpow_natCast]
      exact zpow_le_zpow_right₀ (by norm_num) (by omega)
    have hfloor : ((2 ^ (w - 1) : Nat) : ℤ) ≤ ⌊magnitude v⌋ := by
      rw [le_floor]
      exact_mod_cast hmag
    rw [if_pos hbig]
    cases hsign : signBit v with
    | false =>
      rw [hsign, signedInt, if_neg Bool.false_ne_true] at hhigh
      push_cast at hfloor
      omega
    | true =>
      rw [hsign, signedInt, if_pos rfl] at hlow
      rw [if_pos rfl, signedInt, if_pos rfl, BitVec.toInt_intMin_of_pos (by omega)]
      push_cast at hfloor
      omega
  · rw [if_neg hbig]
    obtain ⟨n, hn⟩ : ∃ n : Nat, 112 - exponent v = n := ⟨(112 - exponent v).toNat, by omega⟩
    have hquot : significand v / 2 ^ n < 2 ^ (w - 1) := by
      rw [Nat.div_lt_iff_lt_mul (Nat.two_pow_pos n), ← pow_add]
      exact lt_of_lt_of_le (significand_lt v) (Nat.pow_le_pow_right (by decide) (by omega))
    have hpow : 2 ^ w = 2 * 2 ^ (w - 1) := by
      rw [← pow_succ']
      congr 1
      omega
    have hword64 : 2 ^ w ≤ 2 ^ 64 := Nat.pow_le_pow_right (by decide) hw'
    have hword : ((u128Shr mant (112 - exponent v)).lo.setWidth w).toNat =
        significand v / 2 ^ n := by
      have hfit : significand v / 2 ^ n < 2 ^ w := by omega
      rw [BitVec.toNat_setWidth, lo_toNat, hn, limbs_shr, hmant,
        mod_eq_of_lt (hfit.trans_le hword64), mod_eq_of_lt hfit]
    rw [floor_magnitude (by omega), show (112 - exponent v).toNat = n by omega, ← hword]
    cases signBit v with
    | false =>
      rw [if_neg Bool.false_ne_true, signedInt, if_neg Bool.false_ne_true]
      exact BitVec.toInt_eq_toNat_of_lt (by omega)
    | true =>
      rw [if_pos rfl, signedInt, if_pos rfl]
      exact toInt_neg_of_lt (by omega)

theorem truncated_intCast (z : ℤ) : truncated (z : ℚ) = z := by
  unfold truncated
  split
  · exact floor_intCast z
  · exact ceil_intCast z

/-- A word comes back from every encoding of its value. -/
theorem f128ToInt_of_encodes (hw : 2 ≤ w) (hw' : w ≤ 64) {x : BitVec w}
    (h : Encodes v (x.toInt : ℤ)) : f128ToInt w (w - 2) v = x := by
  have htrunc : truncated (toRat v) = x.toInt := by rw [h.2, truncated_intCast]
  have hlow := BitVec.le_toInt x
  have hhigh := BitVec.toInt_lt (x := x)
  refine BitVec.eq_of_toInt_eq ?_
  rw [f128ToInt_truncates hw hw' h.1 (htrunc ▸ hlow) (htrunc ▸ hhigh), htrunc]

/-- Clearing the bits of a mask of low bits leaves a multiple. -/
theorem limbs_clearLow (a : U128) {n : Nat} (hn : n < 128) :
    limbs (u128And a (u128Not (u128Sub (u128Shl u128One n) u128One))) =
      limbs a / 2 ^ n * 2 ^ n := by
  have hsplit : ∀ m : U128, limbs (u128And a (u128Not m)) + limbs (u128And a m) = limbs a := by
    intro m
    have hlo := toNat_and_not a.lo m.lo
    have hhi := toNat_and_not a.hi m.hi
    have hlo' : a.lo.toNat &&& m.lo.toNat ≤ a.lo.toNat := Nat.and_le_left
    have hhi' : a.hi.toNat &&& m.hi.toNat ≤ a.hi.toNat := Nat.and_le_left
    rw [← BitVec.toNat_and] at hlo hlo' hhi hhi'
    simp only [limbs, u128And, u128Not]
    omega
  have h := hsplit (u128Sub (u128Shl u128One n) u128One)
  rw [limbs_and a (u128Sub _ _), limbs_lowMask hn, Nat.and_two_pow_sub_one_eq_mod] at h
  have hdiv := Nat.div_add_mod' (limbs a) (2 ^ n)
  omega

/-- A number without fraction bits is its own truncation. -/
theorem truncated_large (hexp : 112 ≤ exponent v) : (truncated (toRat v) : ℚ) = toRat v := by
  obtain ⟨n, hn⟩ : ∃ n : Nat, exponent v - 112 = n := ⟨(exponent v - 112).toNat, by omega⟩
  obtain ⟨z, hz⟩ : ∃ z : ℤ, toRat v = z := by
    rw [toRat, magnitude, hn, zpow_natCast]
    split
    · exact ⟨-(significand v * 2 ^ n : Nat), by push_cast; ring⟩
    · exact ⟨(significand v * 2 ^ n : Nat), by push_cast; ring⟩
  rw [hz, truncated_intCast]

theorem signedInt_cast (sign : Bool) (n : Nat) : (signedInt sign n : ℚ) = signed sign n := by
  cases sign <;> simp [signedInt, signed]

theorem f128Trunc_truncates (hfin : IsFinite v) :
    Encodes (f128Trunc v) (truncated (toRat v) : ℤ) := by
  by_cases hsig : significand v = 0
  · have hrun : f128Trunc v = v := by simp [f128Trunc, f128Unpack_zero hsig]
    rw [hrun, toRat_of_significand_zero hsig]
    refine ⟨hfin, ?_⟩
    rw [toRat_of_significand_zero hsig]
    simp [truncated]
  obtain ⟨mant, hrun, hmant⟩ := f128Unpack_finite hfin hsig
  simp only [f128Trunc, hrun, Bool.false_eq_true, Bool.or_self, if_false]
  by_cases hbig : exponent v ≥ 112
  · rw [if_pos hbig]
    exact ⟨hfin, (truncated_large hbig).symm⟩
  rw [if_neg hbig, toRat_eq_signed, truncated_signed _ (magnitude_nonneg v), floor_magnitude
    (by omega), signedInt_cast]
  by_cases hneg : exponent v < 0
  · have hquot : significand v / 2 ^ (112 - exponent v).toNat = 0 :=
      Nat.div_eq_of_lt (lt_of_lt_of_le (significand_lt v)
        (Nat.pow_le_pow_right (by decide) (by omega)))
    rw [if_pos hneg, hquot]
    have hzero : signed (signBit v) ((0 : Nat) : ℚ) = 0 := by
      cases signBit v <;> simp [signed]
    rw [hzero]
    exact encodes_makeZero (signBit v)
  · rw [if_neg hneg]
    obtain ⟨n, hn⟩ : ∃ n : Nat, 112 - exponent v = n := ⟨(112 - exponent v).toNat, by omega⟩
    obtain ⟨k, hk⟩ : ∃ k, 112 = k + n := ⟨112 - n, by omega⟩
    have hge := significand_ge_of_exponent (v := v) (by omega)
    have hlimbs : limbs (u128And mant (u128Not (u128Sub (u128Shl u128One (112 - exponent v))
        u128One))) = significand v / 2 ^ n * 2 ^ n := by
      rw [hn, limbs_clearLow mant (by omega), hmant]
    -- the leading bit is not cleared
    have hlow : 2 ^ 112 ≤ significand v / 2 ^ n * 2 ^ n := by
      have hquot : 2 ^ k ≤ significand v / 2 ^ n := by
        rw [Nat.le_div_iff_mul_le (Nat.two_pow_pos n), ← pow_add, ← hk]
        exact hge
      calc 2 ^ 112 = 2 ^ k * 2 ^ n := by rw [← pow_add, ← hk]
        _ ≤ significand v / 2 ^ n * 2 ^ n := Nat.mul_le_mul_right _ hquot
    have hhigh : significand v / 2 ^ n * 2 ^ n < 2 ^ 113 :=
      lt_of_le_of_lt (Nat.div_mul_le_self _ _) (significand_lt v)
    rw [← hlimbs] at hlow hhigh
    obtain ⟨hfin', hsign, hexp, hsig'⟩ := pack_fields hlow hhigh (by omega : -16382 ≤ exponent v)
      (by omega) (signBit v)
    refine ⟨hfin', ?_⟩
    rw [toRat_of_parts hsign hexp hsig', hlimbs, show exponent v - 112 = -(n : ℤ) by omega, hn,
      toNat_natCast, zpow_neg, zpow_natCast]
    push_cast
    rw [mul_inv_cancel_right₀ (by positivity)]

/-- Integers go to binary128 and back unchanged; the way back and `f128_trunc` drop
the fraction of any finite number. -/
theorem integer_conversions_truncate :
    (∀ x : BitVec 64, f128ToI64 (f128FromI64 x) = x) ∧
    (∀ x : BitVec 32, f128ToI32 (f128FromI32 x) = x) ∧
    (∀ v, IsFinite v → -(2 ^ 63) ≤ truncated (toRat v) → truncated (toRat v) < 2 ^ 63 →
      (f128ToI64 v).toInt = truncated (toRat v)) ∧
    (∀ v, IsFinite v → Encodes (f128Trunc v) (truncated (toRat v) : ℤ)) := by
  refine ⟨?_, ?_, ?_, ?_⟩
  · intro x
    exact f128ToInt_of_encodes (by decide) (by decide) (f128FromI64_exact x)
  · intro x
    exact f128ToInt_of_encodes (by decide) (by decide) (f128FromI32_exact x)
  · intro v hfin hlow hhigh
    exact f128ToInt_truncates (by decide) (by decide) hfin hlow hhigh
  · intro v hfin
    exact f128Trunc_truncates hfin

theorem integer_conversions_truncate_one :
    (f128ToI64 ⟨0, 0x3FFF000000000000⟩).toInt = truncated (toRat ⟨0, 0x3FFF000000000000⟩) ∧
      Encodes (f128Trunc ⟨0, 0x3FFF000000000000⟩)
        (truncated (toRat ⟨0, 0x3FFF000000000000⟩) : ℤ) := by
  have hone : truncated (toRat ⟨0, 0x3FFF000000000000⟩) = 1 := by
    rw [toRat_one]
    exact_mod_cast truncated_intCast 1
  exact ⟨integer_conversions_truncate.2.2.1 _ (by decide) (by rw [hone]; norm_num)
    (by rw [hone]; norm_num), integer_conversions_truncate.2.2.2 _ (by decide)⟩

end Liric.Guarantees.Float128
