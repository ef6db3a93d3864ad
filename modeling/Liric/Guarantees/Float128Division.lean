import Liric.Guarantees.Float128Pack
import Mathlib.Data.Nat.Prime.Basic

/-!
# Division of binary128 numbers

The restoring loop shifts the remainder before its first comparison and starts
from the whole mantissa of the dividend, so it produces 113 quotient bits of
`mant_a / mant_b` only while the remainder stays below the divisor, that is when
`mant_a ≤ mant_b`. `f128Div_correct_iff` says for which operands the result is
the correctly rounded quotient; for normal operands it is `mant_a ≤ mant_b`.
-/
namespace Liric.Guarantees.Float128
open Source.Float128 Lib

theorem limbs_setLow {q : U128} (h : limbs q % 2 = 0) : limbs (u128Or q u128One) = limbs q + 1 := by
  have hshift : limbs q = (limbs q / 2) <<< 1 := by rw [Nat.shiftLeft_eq]; omega
  rw [limbs_or, limbs_one]
  nth_rewrite 1 [hshift]
  rw [← Nat.shiftLeft_add_eq_or_of_lt (by decide : 1 < 2 ^ 1), ← hshift]

/-- A round appends one bit to the quotient. -/
theorem divLoop_quotient_lt (mantB : U128) (n k : Nat) (hbits : k + n ≤ 127) (remainder quotient : U128)
    (hq : limbs quotient < 2 ^ k) :
    limbs (divLoop mantB n remainder quotient).2 < 2 ^ (k + n) := by
  induction n generalizing k remainder quotient with
  | zero => simpa [divLoop] using hq
  | succ n ih =>
    have hpow : 2 ^ (k + 1) ≤ 2 ^ 127 := Nat.pow_le_pow_right (by decide) (by omega)
    have hdouble : limbs (u128Shl1 quotient) = 2 * limbs quotient := by
      rw [limbs_shl1]
      rw [pow_succ] at hpow
      omega
    have hset : limbs (u128Or (u128Shl1 quotient) u128One) = 2 * limbs quotient + 1 := by
      rw [limbs_setLow (by omega), hdouble]
    rw [divLoop, show k + (n + 1) = (k + 1) + n by omega]
    split
    · exact ih (k + 1) (by omega) _ _ (by rw [hset, pow_succ]; omega)
    · exact ih (k + 1) (by omega) _ _ (by rw [hdouble, pow_succ]; omega)

variable {mantB : U128}

/-- While the remainder is below the divisor, quotient and remainder represent
the shifted dividend. -/
theorem divLoop_spec (hb : limbs mantB < 2 ^ 113) (n k : Nat) (hbits : k + n ≤ 127)
    (remainder quotient : U128) (hq : limbs quotient < 2 ^ k) (hr : limbs remainder < limbs mantB) :
    limbs (divLoop mantB n remainder quotient).1 < limbs mantB ∧
      limbs (divLoop mantB n remainder quotient).2 * limbs mantB +
        limbs (divLoop mantB n remainder quotient).1 =
        (limbs quotient * limbs mantB + limbs remainder) * 2 ^ n := by
  induction n generalizing k remainder quotient with
  | zero => exact ⟨hr, by simp [divLoop]⟩
  | succ n ih =>
    have hpow : 2 ^ (k + 1) ≤ 2 ^ 127 := Nat.pow_le_pow_right (by decide) (by omega)
    have hdoubleQ : limbs (u128Shl1 quotient) = 2 * limbs quotient := by
      rw [limbs_shl1]
      rw [pow_succ] at hpow
      omega
    have hdoubleR : limbs (u128Shl1 remainder) = 2 * limbs remainder := by
      rw [limbs_shl1]
      omega
    have hset : limbs (u128Or (u128Shl1 quotient) u128One) = 2 * limbs quotient + 1 := by
      rw [limbs_setLow (by omega), hdoubleQ]
    rw [divLoop]
    split
    · rename_i hge
      rw [u128Gte_iff, hdoubleR] at hge
      have hsub : limbs (u128Sub (u128Shl1 remainder) mantB) =
          2 * limbs remainder - limbs mantB := by
        rw [limbs_sub _ _ (by rw [hdoubleR]; exact hge), hdoubleR]
      obtain ⟨hlt, heq⟩ := ih (k + 1) (by omega) (u128Sub (u128Shl1 remainder) mantB)
        (u128Or (u128Shl1 quotient) u128One) (by rw [hset, pow_succ]; omega)
        (by rw [hsub]; omega)
      refine ⟨hlt, ?_⟩
      have hvalue : (2 * limbs quotient + 1) * limbs mantB + (2 * limbs remainder - limbs mantB) =
          (limbs quotient * limbs mantB + limbs remainder) * 2 := by
        rw [Nat.add_mul, one_mul]
        have hassoc : 2 * limbs quotient * limbs mantB = 2 * (limbs quotient * limbs mantB) := by
          ring
        omega
      rw [heq, hset, hsub, hvalue]
      ring
    · rename_i hlt'
      rw [u128Gte_iff, hdoubleR] at hlt'
      obtain ⟨hlt, heq⟩ := ih (k + 1) (by omega) (u128Shl1 remainder) (u128Shl1 quotient)
        (by rw [hdoubleQ, pow_succ]; omega) (by rw [hdoubleR]; omega)
      refine ⟨hlt, ?_⟩
      rw [heq, hdoubleQ, hdoubleR]
      ring

/-- A remainder equal to the divisor stays equal to it and yields one-bits. -/
theorem divLoop_self (hb : limbs mantB < 2 ^ 113) (n k : Nat) (hbits : k + n ≤ 127)
    (quotient : U128) (hq : limbs quotient < 2 ^ k) :
    (divLoop mantB n mantB quotient).1 = mantB ∧
      limbs (divLoop mantB n mantB quotient).2 + 1 = (limbs quotient + 1) * 2 ^ n := by
  induction n generalizing k quotient with
  | zero => exact ⟨rfl, by simp [divLoop]⟩
  | succ n ih =>
    have hpow : 2 ^ (k + 1) ≤ 2 ^ 127 := Nat.pow_le_pow_right (by decide) (by omega)
    have hdoubleQ : limbs (u128Shl1 quotient) = 2 * limbs quotient := by
      rw [limbs_shl1]
      rw [pow_succ] at hpow
      omega
    have hdoubleR : limbs (u128Shl1 mantB) = 2 * limbs mantB := by
      rw [limbs_shl1]
      omega
    have hset : limbs (u128Or (u128Shl1 quotient) u128One) = 2 * limbs quotient + 1 := by
      rw [limbs_setLow (by omega), hdoubleQ]
    have hsub : u128Sub (u128Shl1 mantB) mantB = mantB := by
      apply limbs_inj
      rw [limbs_sub _ _ (by rw [hdoubleR]; omega), hdoubleR]
      omega
    have hge : u128Gte (u128Shl1 mantB) mantB = true := by
      rw [u128Gte_iff, hdoubleR]
      omega
    rw [divLoop]
    simp only [hge, if_true, hsub]
    obtain ⟨hfst, hsnd⟩ := ih (k + 1) (by omega) (u128Or (u128Shl1 quotient) u128One)
      (by rw [hset, pow_succ]; omega)
    refine ⟨hfst, ?_⟩
    rw [hsnd, hset]
    ring

/-- The quotient `f128_div` packs. -/
def roundedQuotient (mantA mantB : U128) : U128 :=
  let (remainder, quotient) := divLoop mantB 113 mantA u128Zero
  if u128Gte (u128Shl1 remainder) mantB then u128Inc quotient else quotient

theorem f128DivFinite_eq (pa pb : F128Parts) (rsign : Bool) :
    f128DivFinite pa pb rsign =
      f128PackParts rsign (pa.exp - pb.exp - 1) (roundedQuotient pa.mant pb.mant) := rfl

theorem roundedQuotient_le (mantA mantB : U128) :
    limbs (roundedQuotient mantA mantB) ≤ 2 ^ 113 := by
  have hlt := divLoop_quotient_lt mantB 113 0 (by decide) mantA u128Zero (by decide)
  rw [roundedQuotient]
  generalize divLoop mantB 113 mantA u128Zero = run at hlt
  simp only [Nat.zero_add] at hlt
  simp only
  split
  · rw [limbs_inc _ (by omega)]
    omega
  · exact hlt.le

/-- With the smaller mantissa on top the packed quotient is `mant_a * 2 ^ 113 / mant_b`
rounded half up. -/
theorem roundedQuotient_eq {mantA : U128} (hb : limbs mantB < 2 ^ 113)
    (hlt : limbs mantA < limbs mantB) :
    limbs (roundedQuotient mantA mantB) =
      limbs mantA * 2 ^ 113 / limbs mantB +
        if limbs mantB ≤ 2 * (limbs mantA * 2 ^ 113 % limbs mantB) then 1 else 0 := by
  obtain ⟨hrem, heq⟩ := divLoop_spec hb 113 0 (by decide) mantA u128Zero (by decide) hlt
  have hquot := divLoop_quotient_lt mantB 113 0 (by decide) mantA u128Zero (by decide)
  rw [roundedQuotient]
  generalize divLoop mantB 113 mantA u128Zero = run at hrem heq hquot
  rw [limbs_zero, zero_mul, Nat.zero_add] at heq
  have hdiv : limbs mantA * 2 ^ 113 / limbs mantB = limbs run.2 := by
    rw [← heq, Nat.mul_comm, Nat.mul_add_div (by omega), Nat.div_eq_of_lt hrem, Nat.add_zero]
  have hmod : limbs mantA * 2 ^ 113 % limbs mantB = limbs run.1 := by
    rw [← heq, Nat.mul_comm, Nat.mul_add_mod, Nat.mod_eq_of_lt hrem]
  have hdouble : limbs (u128Shl1 run.1) = 2 * limbs run.1 := by
    rw [limbs_shl1]
    omega
  rw [hdiv, hmod]
  simp only
  split
  · rename_i hge
    rw [u128Gte_iff, hdouble] at hge
    rw [if_pos hge, limbs_inc _ (by simp only [Nat.zero_add] at hquot; omega)]
  · rename_i hge
    rw [u128Gte_iff, hdouble] at hge
    rw [if_neg hge]
    rfl

theorem roundedQuotient_self {mant : U128} (hb : limbs mant < 2 ^ 113) :
    limbs (roundedQuotient mant mant) = 2 ^ 113 := by
  obtain ⟨hfst, hsnd⟩ := divLoop_self hb 113 0 (by decide) u128Zero (by decide)
  rw [roundedQuotient]
  generalize divLoop mant 113 mant u128Zero = run at hfst hsnd
  have hdouble : limbs (u128Shl1 mant) = 2 * limbs mant := by
    rw [limbs_shl1]
    omega
  have hge : u128Gte (u128Shl1 run.1) mant = true := by
    rw [u128Gte_iff, hfst, hdouble]
    omega
  rw [limbs_zero, Nat.zero_add, one_mul] at hsnd
  simp only [hge, if_true]
  rw [limbs_inc _ (by omega), hsnd]

/-- Distance of `mant_a * 2 ^ 113 / mant_b` from the nearest integer, in units of
`1 / mant_b`. -/
def quotientError (ma mb : Nat) : Nat :=
  min (ma * 2 ^ 113 % mb) (mb - ma * 2 ^ 113 % mb)

/-- The operands whose quotient `f128_div` rounds correctly: the dividend has the
smaller mantissa, and the 113 quotient bits the loop produces are enough. With
`t` leading zero bits in the quotient only `113 - t` of them are significant, so
the error must be at most half of the last of 113 significant bits. -/
def DivisionRounds (ma mb : Nat) : Prop :=
  ma ≤ mb ∧ ∃ t, mb ≤ ma * 2 ^ t ∧ quotientError ma mb * 2 ^ t ≤ mb

variable {mb ma : Nat}

/-- For normal operands only the order of the mantissas matters. -/
theorem divisionRounds_of_normal (ha : 2 ^ 112 ≤ ma) (hb : mb < 2 ^ 113) :
    DivisionRounds ma mb ↔ ma ≤ mb := by
  refine ⟨fun h => h.1, fun h => ⟨h, 1, by omega, ?_⟩⟩
  have hlt := Nat.mod_lt (ma * 2 ^ 113) (by omega : mb > 0)
  unfold quotientError
  omega

/-- Half an integer above a multiple of the divisor is out of reach: it would
need a divisor of more than 113 bits. -/
theorem no_tie (ma : Nat) (hpos : 0 < mb) (hb : mb < 2 ^ 113) : 2 * (ma * 2 ^ 113 % mb) ≠ mb := by
  intro htie
  have hsplit := Nat.div_add_mod (ma * 2 ^ 113) mb
  have heq : ma * 2 ^ 114 = (2 * (ma * 2 ^ 113 / mb) + 1) * mb := by
    calc ma * 2 ^ 114 = 2 * (ma * 2 ^ 113) := by ring
      _ = 2 * (mb * (ma * 2 ^ 113 / mb) + ma * 2 ^ 113 % mb) := by rw [hsplit]
      _ = (2 * (ma * 2 ^ 113 / mb) + 1) * mb := by rw [Nat.mul_add, htie]; ring
  have hdvd : 2 ^ 114 ∣ (2 * (ma * 2 ^ 113 / mb) + 1) * mb := ⟨ma, by rw [← heq]; ring⟩
  have hodd : Nat.Coprime (2 ^ 114) (2 * (ma * 2 ^ 113 / mb) + 1) := by
    apply Nat.Coprime.pow_left
    rw [Nat.coprime_two_left]
    exact ⟨_, rfl⟩
  have hle := Nat.le_of_dvd hpos (hodd.dvd_of_dvd_mul_left hdvd)
  omega

theorem quotientError_no_tie (ma : Nat) (hpos : 0 < mb) (hb : mb < 2 ^ 113) :
    quotientError ma mb * 2 ≠ mb := by
  have htie := no_tie ma hpos hb
  have hmod := Nat.mod_lt (ma * 2 ^ 113) hpos
  unfold quotientError
  generalize ma * 2 ^ 113 % mb = r at *
  omega

theorem abs_quotient_sub (ma : Nat) (hpos : 0 < mb) :
    |((ma * 2 ^ 113 : Nat) : ℚ) / mb - ((ma * 2 ^ 113 / mb +
      if mb ≤ 2 * (ma * 2 ^ 113 % mb) then 1 else 0 : Nat) : ℚ)| = quotientError ma mb / mb := by
  have hposQ : (0 : ℚ) < mb := by exact_mod_cast hpos
  have hlt := Nat.mod_lt (ma * 2 ^ 113) hpos
  have hsplit : ((ma * 2 ^ 113 : Nat) : ℚ) =
      mb * (ma * 2 ^ 113 / mb : Nat) + (ma * 2 ^ 113 % mb : Nat) := by
    exact_mod_cast (Nat.div_add_mod (ma * 2 ^ 113) mb).symm
  unfold quotientError
  rw [hsplit]
  generalize ma * 2 ^ 113 / mb = q at *
  generalize ma * 2 ^ 113 % mb = r at *
  split
  · rename_i hup
    rw [min_eq_right (by omega), Nat.cast_sub hlt.le]
    have hdist : ((mb : ℚ) * q + r) / mb - ((q + 1 : Nat) : ℚ) = -((mb - r) / mb) := by
      push_cast
      field_simp
      ring
    have hnonneg : (0 : ℚ) ≤ mb - r := by
      rw [sub_nonneg]
      exact_mod_cast hlt.le
    rw [hdist, abs_neg, abs_of_nonneg (div_nonneg hnonneg hposQ.le)]
  · rename_i hdown
    rw [min_eq_left (by omega)]
    have hdist : ((mb : ℚ) * q + r) / mb - ((q + 0 : Nat) : ℚ) = r / mb := by
      push_cast
      field_simp
      ring
    rw [hdist, abs_of_nonneg (by positivity)]

/-- The half-up quotient is the correctly rounded one exactly under
`DivisionRounds`. -/
theorem roundTo_quotient_iff (ha : 0 < ma) (hlt : ma < mb) (hb : mb < 2 ^ 113) :
    roundTo 113 (((ma * 2 ^ 113 : Nat) : ℚ) / mb) =
      ((ma * 2 ^ 113 / mb + if mb ≤ 2 * (ma * 2 ^ 113 % mb) then 1 else 0 : Nat) : ℚ) ↔
      DivisionRounds ma mb := by
  have hpos : 0 < mb := by omega
  have hposQ : (0 : ℚ) < mb := by exact_mod_cast hpos
  have hquot : ma * 2 ^ 113 / mb ≠ 0 := by
    rw [Nat.div_ne_zero_iff]
    refine ⟨by omega, ?_⟩
    calc mb ≤ 1 * 2 ^ 113 := by omega
      _ ≤ ma * 2 ^ 113 := Nat.mul_le_mul_right _ ha
  -- the leading bit of the quotient
  have hlow := Nat.pow_log_le_self 2 hquot
  have hhigh := Nat.lt_pow_succ_log_self (by decide : 1 < 2) (ma * 2 ^ 113 / mb)
  have hdist := abs_quotient_sub ma hpos
  generalize Nat.log 2 (ma * 2 ^ 113 / mb) = k at hlow hhigh
  rw [Nat.le_div_iff_mul_le hpos] at hlow
  rw [Nat.div_lt_iff_lt_mul hpos] at hhigh
  have hk : k < 113 := by
    have hbound : 2 ^ k * mb < 2 ^ 113 * mb :=
      lt_of_le_of_lt hlow (by rw [Nat.mul_comm]; exact Nat.mul_lt_mul_of_pos_left hlt (by decide))
    exact (Nat.pow_lt_pow_iff_right (by decide)).mp (Nat.lt_of_mul_lt_mul_right hbound)
  obtain ⟨j, hj⟩ : ∃ j, 112 = k + j := ⟨112 - k, by omega⟩
  have hplace : lastPlace 113 (((ma * 2 ^ 113 : Nat) : ℚ) / mb) = -(j : ℤ) := by
    rw [lastPlace_of_bounds (k := k)]
    · push_cast
      omega
    · rw [le_div_iff₀ hposQ]
      exact_mod_cast hlow
    · rw [div_lt_iff₀ hposQ]
      exact_mod_cast hhigh
  generalize hQ : ma * 2 ^ 113 / mb + (if mb ≤ 2 * (ma * 2 ^ 113 % mb) then 1 else 0) = Q at *
  have hscaled : (Q : ℚ) = ((Q * 2 ^ j : Nat) : ℤ) * 2 ^ (-(j : ℤ)) := by
    push_cast
    rw [mul_assoc, zpow_neg, zpow_natCast, mul_inv_cancel₀ (by positivity), mul_one]
  have hhalf : (2 : ℚ) ^ (-(j : ℤ)) / 2 = 1 / 2 ^ (j + 1) := by
    rw [zpow_neg, zpow_natCast, pow_succ]
    field_simp
  have hlast : mb ≤ ma * 2 ^ (j + 1) := by
    have h : 2 ^ k * mb ≤ 2 ^ k * (ma * 2 ^ (j + 1)) := by
      calc 2 ^ k * mb ≤ ma * 2 ^ 113 := hlow
        _ = 2 ^ k * (ma * 2 ^ (j + 1)) := by
          rw [show 113 = k + (j + 1) by omega, pow_add]
          ring
    exact Nat.le_of_mul_le_mul_left h (Nat.two_pow_pos k)
  -- equality is a bound on the error
  have hbound : roundTo 113 (((ma * 2 ^ 113 : Nat) : ℚ) / mb) = (Q : ℚ) ↔
      quotientError ma mb * 2 ^ (j + 1) ≤ mb := by
    rw [hscaled, roundTo_eq_iff hplace, ← hscaled, hdist, hhalf,
      div_lt_div_iff₀ hposQ (by positivity), div_eq_div_iff hposQ.ne' (by positivity), one_mul]
    constructor
    · rintro (h | ⟨h, -⟩)
      · exact_mod_cast h.le
      · exact_mod_cast h.le
    · intro h
      rcases h.lt_or_eq with hlt' | heq
      · exact Or.inl (by exact_mod_cast hlt')
      · refine Or.inr ⟨by exact_mod_cast heq, ?_⟩
        rw [Int.even_coe_nat]
        cases j with
        | zero =>
          exact absurd heq (quotientError_no_tie ma hpos hb)
        | succ j => exact (Nat.even_pow.mpr ⟨even_two, by omega⟩).mul_left Q
  rw [hbound]
  constructor
  · intro h
    exact ⟨hlt.le, j + 1, hlast, h⟩
  · rintro ⟨-, t, ht, herr⟩
    have hjt : j + 1 ≤ t := by
      by_contra hcon
      have h : 2 ^ (k + 1) * mb ≤ ma * 2 ^ 113 := by
        calc 2 ^ (k + 1) * mb ≤ 2 ^ (k + 1) * (ma * 2 ^ t) := Nat.mul_le_mul_left _ ht
          _ = ma * 2 ^ (k + 1 + t) := by rw [pow_add _ (k + 1)]; ring
          _ ≤ ma * 2 ^ 113 := Nat.mul_le_mul_left _ (Nat.pow_le_pow_right (by decide) (by omega))
      exact absurd hhigh (not_lt.mpr h)
    exact le_trans (Nat.mul_le_mul_left _ (Nat.pow_le_pow_right (by decide) hjt)) herr

/-- With the larger mantissa on top the quotient does not fit the 113 bits. -/
theorem roundTo_quotient_gt (hpos : 0 < mb) (hb : mb < 2 ^ 113) (hgt : mb < ma)
    {Q : Nat} (hQ : Q ≤ 2 ^ 113) :
    roundTo 113 (((ma * 2 ^ 113 : Nat) : ℚ) / mb) ≠ (Q : ℚ) := by
  have hposQ : (0 : ℚ) < mb := by exact_mod_cast hpos
  have hQle : (Q : ℚ) ≤ 2 ^ (113 : ℤ) := by exact_mod_cast hQ
  have hlarge : (2 : ℚ) ^ (113 : ℤ) + 1 < ((ma * 2 ^ 113 : Nat) : ℚ) / mb := by
    rw [lt_div_iff₀ hposQ]
    have hnat : (2 ^ 113 + 1) * mb < ma * 2 ^ 113 := by
      calc (2 ^ 113 + 1) * mb = mb * 2 ^ 113 + mb := by ring
        _ < mb * 2 ^ 113 + 2 ^ 113 := by omega
        _ = (mb + 1) * 2 ^ 113 := by ring
        _ ≤ ma * 2 ^ 113 := Nat.mul_le_mul_right _ hgt
    exact_mod_cast hnat
  generalize ((ma * 2 ^ 113 : Nat) : ℚ) / mb = x at *
  intro heq
  rcases lt_or_ge x (2 ^ ((113 : ℤ) + 1)) with hlt | hge
  · have hge : (2 : ℚ) ^ (113 : ℤ) ≤ x := by linarith
    have hplace : lastPlace 113 x = 1 := by
      rw [lastPlace_of_bounds hge hlt]
      norm_num
    have hfull : (Q : ℚ) = ((2 ^ 112 : ℕ) : ℤ) * 2 ^ (1 : ℤ) := by
      have hQge := zpow_le_roundTo (p := 113) (by decide) hge
      rw [heq] at hQge
      rw [le_antisymm hQle hQge]
      norm_num
    rw [hfull, roundTo_eq_iff hplace, ← hfull] at heq
    have hfar : 1 < |x - Q| := by
      rw [abs_of_pos (by linarith)]
      linarith
    have hhalf : (2 : ℚ) ^ (1 : ℤ) / 2 = 1 := by norm_num
    rw [hhalf] at heq
    rcases heq with h | ⟨h, -⟩
    · linarith
    · linarith
  · have hQge := zpow_le_roundTo (p := 113) (by decide) hge
    rw [heq] at hQge
    have hpow : (2 : ℚ) ^ (113 : ℤ) < 2 ^ ((113 : ℤ) + 1) := by norm_num
    linarith

theorem toRat_div (a b : LrF128) :
    toRat a / toRat b = if signBit a ^^ signBit b then -(magnitude a / magnitude b)
      else magnitude a / magnitude b := by
  unfold toRat
  cases signBit a <;> cases signBit b <;> simp [neg_div, div_neg]

theorem magnitude_div {a b : LrF128} (hb : significand b ≠ 0) :
    magnitude a / magnitude b =
      ((significand a * 2 ^ 113 : Nat) : ℚ) / significand b *
        2 ^ (exponent a - exponent b - 1 - 112) := by
  have hbQ : (significand b : ℚ) ≠ 0 := by exact_mod_cast hb
  rw [magnitude, magnitude, show exponent a - exponent b - 1 - 112 =
    (exponent a - 112) - (exponent b - 112) + -(113 : Nat) by push_cast; ring]
  generalize exponent a - 112 = ea
  generalize exponent b - 112 = eb
  rw [zpow_add₀ two_ne_zero, zpow_sub₀ two_ne_zero, zpow_neg, zpow_natCast, Nat.cast_mul]
  generalize 113 = p
  push_cast
  field_simp

theorem f128Div_eq {a b : LrF128} (hfa : IsFinite a) (hfb : IsFinite b) (ha : significand a ≠ 0)
    (hb : significand b ≠ 0) :
    ∃ mantA mantB, limbs mantA = significand a ∧ limbs mantB = significand b ∧
      f128Div a b = f128PackParts (signBit a ^^ signBit b) (exponent a - exponent b - 1)
        (roundedQuotient mantA mantB) := by
  obtain ⟨mantA, hunpackA, hmantA⟩ := f128Unpack_finite hfa ha
  obtain ⟨mantB, hunpackB, hmantB⟩ := f128Unpack_finite hfb hb
  refine ⟨mantA, mantB, hmantA, hmantB, ?_⟩
  simp only [f128Div, hunpackA, hunpackB, Bool.false_eq_true, if_false]
  exact f128DivFinite_eq _ _ _

/-- For finite non-zero operands whose exact quotient rounds to a normal number,
`lr_f128_div` returns the encoding of the quotient rounded to 113 bits to
nearest even, with the sign of the product, exactly if `DivisionRounds` holds of
the two significands. -/
theorem f128Div_correct_iff (a b : LrF128) (hfa : IsFinite a) (hfb : IsFinite b) (ha : toRat a ≠ 0)
    (hb : toRat b ≠ 0) (hnormal : InNormalRange (roundTo 113 (toRat a / toRat b))) :
    (Encodes (f128Div a b) (roundTo 113 (toRat a / toRat b)) ∧
      signBit (f128Div a b) = (signBit a ^^ signBit b)) ↔
      DivisionRounds (significand a) (significand b) := by
  rw [toRat_ne_zero_iff] at ha hb
  obtain ⟨mantA, mantB, hmantA, hmantB, hrun⟩ := f128Div_eq hfa hfb ha hb
  have hbits : limbs mantB < 2 ^ 113 := hmantB ▸ significand_lt b
  have hquotLe := roundedQuotient_le mantA mantB
  have hxpos : ((significand a * 2 ^ 113 : Nat) : ℚ) / significand b ≠ 0 := by
    push_cast
    positivity
  -- signs and exponents cancel on both sides
  have hcancel : Encodes (f128Div a b) (roundTo 113 (toRat a / toRat b)) ↔
      roundTo 113 (((significand a * 2 ^ 113 : Nat) : ℚ) / significand b) =
        limbs (roundedQuotient mantA mantB) := by
    have hunit : (2 : ℚ) ^ (exponent a - exponent b - 1 - 112) ≠ 0 := by positivity
    have hpacked : roundTo 113 ((limbs (roundedQuotient mantA mantB) : ℚ) *
        2 ^ (exponent a - exponent b - 1 - 112)) =
        limbs (roundedQuotient mantA mantB) * 2 ^ (exponent a - exponent b - 1 - 112) := by
      rcases Nat.eq_zero_or_pos (limbs (roundedQuotient mantA mantB)) with hz | hz
      · rw [hz, Nat.cast_zero, zero_mul, roundTo_zero]
      · rw [roundTo_mul_zpow (by exact_mod_cast hz.ne'), roundTo_natCast_of_le (by decide) hquotLe]
    rw [hrun, f128PackParts_encodes_iff _ _ _ hnormal, hpacked, toRat_div, magnitude_div hb]
    cases signBit a ^^ signBit b
    · rw [if_neg Bool.false_ne_true, if_neg Bool.false_ne_true, roundTo_mul_zpow hxpos,
        mul_left_inj' hunit]
      exact eq_comm
    · rw [if_pos rfl, if_pos rfl, roundTo_neg, roundTo_mul_zpow hxpos, neg_inj, mul_left_inj' hunit]
      exact eq_comm
  have hsign : signBit (f128Div a b) = (signBit a ^^ signBit b) := by
    rw [hrun, signBit_f128PackParts]
  rw [and_iff_left hsign, hcancel]
  rcases lt_trichotomy (significand a) (significand b) with hlt | heq | hgt
  · rw [roundedQuotient_eq hbits (by omega), hmantA, hmantB]
    exact roundTo_quotient_iff (Nat.pos_of_ne_zero ha) hlt (by omega)
  · have hself : mantA = mantB := limbs_inj (by omega)
    have hbQ : (significand b : ℚ) ≠ 0 := by exact_mod_cast hb
    have hone : ((significand a * 2 ^ 113 : Nat) : ℚ) / significand b = ((2 ^ 113 : Nat) : ℚ) := by
      rw [heq]
      push_cast
      field_simp
    rw [hself, roundedQuotient_self hbits, hone, roundTo_natCast_of_le (by decide) le_rfl]
    refine iff_of_true rfl ⟨heq.le, 0, by omega, ?_⟩
    rw [quotientError, heq, Nat.mul_mod_right]
    simp
  · refine iff_of_false (roundTo_quotient_gt (by omega) (by omega) hgt hquotLe) ?_
    rintro ⟨hle, -⟩
    omega

theorem toRat_three : toRat ⟨0, 0x4000800000000000⟩ = 3 := by
  rw [toRat_of_fields (m := 3 * 2 ^ 111) (e := 1) (by decide) (by decide) (by decide)]
  norm_num

/-- `1.0 / 3.0`: the dividend has the smaller mantissa and the quotient is right. -/
theorem f128Div_correct_one_third :
    DivisionRounds (significand ⟨0, 0x3FFF000000000000⟩) (significand ⟨0, 0x4000800000000000⟩) ∧
    Encodes (f128Div ⟨0, 0x3FFF000000000000⟩ ⟨0, 0x4000800000000000⟩) (roundTo 113 (1 / 3)) := by
  have hnormal : InNormalRange (roundTo 113 (1 / 3)) := by
    have hlow : (2 : ℚ) ^ (-2 : ℤ) ≤ roundTo 113 (1 / 3) :=
      zpow_le_roundTo (by decide) (by norm_num)
    have hhigh : roundTo 113 (1 / 3) ≤ (2 : ℚ) ^ (0 : ℤ) :=
      roundTo_le_zpow (by decide) (by norm_num) (by norm_num)
    have hpos : 0 < roundTo 113 (1 / 3) := lt_of_lt_of_le (by positivity) hlow
    refine ⟨?_, ?_⟩
    · rw [abs_of_pos hpos]
      exact le_trans (zpow_le_zpow_right₀ (by norm_num) (by norm_num)) hlow
    · rw [abs_of_pos hpos]
      exact lt_of_le_of_lt hhigh (zpow_lt_zpow_right₀ (by norm_num) (by norm_num))
  have hrounds : DivisionRounds (significand ⟨0, 0x3FFF000000000000⟩)
      (significand ⟨0, 0x4000800000000000⟩) :=
    (divisionRounds_of_normal (by decide) (by decide)).mpr (by decide)
  have h := (f128Div_correct_iff ⟨0, 0x3FFF000000000000⟩ ⟨0, 0x4000800000000000⟩ (by decide)
    (by decide) (by rw [toRat_one]; exact one_ne_zero) (by rw [toRat_three]; norm_num)
    (by rw [toRat_one, toRat_three]; exact hnormal)).mpr hrounds
  rw [toRat_one, toRat_three] at h
  exact ⟨hrounds, h.1⟩

/-- `3.0 / 2.0` comes out as `1.0`. -/
theorem f128Div_three_halves :
    toRat ⟨0, 0x4000800000000000⟩ = 3 ∧ toRat ⟨0, 0x4000000000000000⟩ = 2 ∧
    InNormalRange (roundTo 113 (3 / 2)) ∧
    ¬ Encodes (f128Div ⟨0, 0x4000800000000000⟩ ⟨0, 0x4000000000000000⟩) (roundTo 113 (3 / 2)) := by
  have htwo : toRat ⟨0, 0x4000000000000000⟩ = 2 := by
    rw [toRat_of_fields (m := 2 ^ 112) (e := 1) (by decide) (by decide) (by decide)]
    norm_num
  have hexact : roundTo 113 (3 / 2) = 3 / 2 := by
    have hthree : roundTo 113 ((3 : ℕ) : ℚ) = (3 : ℕ) := roundTo_natCast_of_lt (by decide)
    have hscale := roundTo_mul_zpow (p := 113) (by norm_num : ((3 : ℕ) : ℚ) ≠ 0) (-1)
    rw [hthree] at hscale
    norm_num at hscale
    exact hscale
  have hrun : f128Div ⟨0, 0x4000800000000000⟩ ⟨0, 0x4000000000000000⟩ =
      ⟨0, 0x3FFF000000000000⟩ := by decide +kernel
  refine ⟨toRat_three, htwo, ?_, ?_⟩
  · rw [hexact]
    have habs : |(3 : ℚ) / 2| = 3 / 2 := by norm_num
    refine ⟨?_, ?_⟩
    · rw [habs]
      exact le_trans (zpow_le_zpow_right₀ (by norm_num) (by norm_num : (-16382 : ℤ) ≤ 0))
        (by norm_num)
    · rw [habs]
      exact lt_of_lt_of_le (by norm_num : (3 : ℚ) / 2 < 2 ^ (1 : ℤ))
        (zpow_le_zpow_right₀ (by norm_num) (by norm_num))
  · rw [hrun, hexact]
    rintro ⟨-, hval⟩
    rw [toRat_one] at hval
    norm_num at hval

end Liric.Guarantees.Float128
