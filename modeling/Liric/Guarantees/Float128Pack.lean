import Liric.Guarantees.Float128Limbs
import Liric.Lib.RoundToEven

/-!
# Values of binary128 encodings, unpacking and packing

`toRat` reads an encoding by the fields of the format: one sign bit, 15 exponent
bits with bias 16383 and 112 fraction bits. `f128_unpack` reads the same fields,
and `f128_pack_parts` rounds its mantissa to nearest even whenever the rounded
number is normal.
-/
namespace Liric.Guarantees.Float128
open Source.Float128 Lib Nat

variable {v : LrF128} {mant : U128} {exp : Int}

def signBit (v : LrF128) : Bool := decide (2 ^ 63 ≤ v.hi.toNat)
def biasedExp (v : LrF128) : Nat := v.hi.toNat / 2 ^ 48 % 2 ^ 15
def fraction (v : LrF128) : Nat := 2 ^ 64 * (v.hi.toNat % 2 ^ 48) + v.lo.toNat

def IsFinite (v : LrF128) : Prop := biasedExp v ≠ 0x7FFF

instance (v : LrF128) : Decidable (IsFinite v) := inferInstanceAs (Decidable (_ ≠ _))

section
variable (v : LrF128)

/-- The significand as an integer, with the hidden bit of a normal number. -/
def significand : Nat :=
  if biasedExp v = 0 then fraction v else 2 ^ 112 + fraction v

def exponent : Int :=
  if biasedExp v = 0 then -16382 else biasedExp v - 16383

def magnitude : ℚ := significand v * 2 ^ (exponent v - 112)

/-- The rational a finite encoding stands for. -/
def toRat : ℚ := if signBit v then -magnitude v else magnitude v

/-- `v` is an encoding of the rational `x`. -/
def Encodes (x : ℚ) : Prop := IsFinite v ∧ toRat v = x

/-- The rational is a normal binary128 number in size. -/
def InNormalRange (x : ℚ) : Prop := 2 ^ (-16382 : ℤ) ≤ |x| ∧ |x| < 2 ^ (16384 : ℤ)

theorem fraction_lt : fraction v < 2 ^ 112 := by
  have hlo := v.lo.isLt
  unfold fraction
  omega

theorem significand_lt : significand v < 2 ^ 113 := by
  have h := fraction_lt v
  unfold significand
  split <;> omega

end

/-- A significand without hidden bit belongs to the least exponent. -/
theorem exponent_of_significand_lt (h : significand v < 2 ^ 112) : exponent v = -16382 := by
  unfold significand at h
  unfold exponent
  split
  · rfl
  · rename_i hne
    rw [if_neg hne] at h
    omega

theorem neg16382_le_exponent (v : LrF128) : -16382 ≤ exponent v := by
  unfold exponent
  split <;> omega

theorem magnitude_nonneg (v : LrF128) : 0 ≤ magnitude v := by
  unfold magnitude
  positivity

theorem toRat_ne_zero_iff (v : LrF128) : toRat v ≠ 0 ↔ significand v ≠ 0 := by
  have hpow : (2 : ℚ) ^ (exponent v - 112) ≠ 0 := by positivity
  unfold toRat magnitude
  split <;> simp [hpow]

theorem abs_toRat (v : LrF128) : |toRat v| = magnitude v := by
  have h := magnitude_nonneg v
  unfold toRat
  split
  · rw [abs_neg, abs_of_nonneg h]
  · exact abs_of_nonneg h

/-- The value of a positive encoding from its fields. -/
theorem toRat_of_fields {m : Nat} {e : Int} (hsign : signBit v = false) (hsig : significand v = m)
    (hexp : exponent v = e) : toRat v = m * 2 ^ (e - 112) := by
  rw [toRat, hsign, if_neg Bool.false_ne_true, magnitude, hsig, hexp]

theorem toRat_one : toRat ⟨0, 0x3FFF000000000000⟩ = 1 := by
  rw [toRat_of_fields (m := 2 ^ 112) (e := 0) (by decide) (by decide) (by decide)]
  norm_num

theorem toNat_and_fracMask (w : BitVec 64) : (w &&& fracMask).toNat = w.toNat % 2 ^ 48 := by
  rw [BitVec.toNat_and]
  exact and_two_pow_sub_one_eq_mod w.toNat 48

theorem expField_eq (v : LrF128) : ((v.hi >>> 48) &&& 0x7FFF#64).toNat = biasedExp v := by
  rw [BitVec.toNat_and, BitVec.toNat_ushiftRight, shiftRight_eq_div_pow]
  exact and_two_pow_sub_one_eq_mod _ 15

theorem signField_eq (v : LrF128) : ((v.hi >>> 63) != 0#64) = signBit v := by
  have hlt := v.hi.isLt
  rw [Bool.eq_iff_iff, bne_iff_ne, signBit, decide_eq_true_eq, ne_eq, ← BitVec.toNat_inj,
    BitVec.toNat_ushiftRight, shiftRight_eq_div_pow, BitVec.toNat_ofNat]
  omega

theorem limbs_make (hi lo : BitVec 64) : limbs (u128Make hi lo) = 2 ^ 64 * hi.toNat + lo.toNat :=
  rfl

theorem fraction_eq_zero_iff (v : LrF128) :
    fraction v = 0 ↔ v.hi &&& fracMask = 0#64 ∧ v.lo = 0#64 := by
  rw [← BitVec.toNat_inj, ← BitVec.toNat_inj, toNat_and_fracMask, BitVec.toNat_ofNat, fraction]
  omega

theorem toNat_or_hidden (w : BitVec 64) :
    ((w &&& fracMask) ||| (1#64 <<< 48)).toNat = 2 ^ 48 + w.toNat % 2 ^ 48 := by
  have hlt : w.toNat % 2 ^ 48 < 2 ^ 48 := mod_lt _ (by decide)
  rw [BitVec.toNat_or, toNat_and_fracMask, Nat.or_comm]
  exact (shiftLeft_add_eq_or_of_lt hlt 1).symm

/-- `f128_unpack` on a finite number that is not zero. -/
theorem f128Unpack_finite (hfin : IsFinite v) (hne : significand v ≠ 0) :
    ∃ mant, f128Unpack v = { sign := signBit v, exp := exponent v, mant := mant } ∧
      limbs mant = significand v := by
  have hfin' : ¬ ((biasedExp v : Int) = 0x7FFF) := by unfold IsFinite at hfin; omega
  have hnz : ¬ ((biasedExp v : Int) = 0 ∧ v.hi &&& fracMask = 0#64 ∧ v.lo = 0#64) := by
    rintro ⟨hexp, hfrac⟩
    refine hne ?_
    rw [significand, if_pos (by omega)]
    exact (fraction_eq_zero_iff v).mpr hfrac
  simp only [f128Unpack, expField_eq, signField_eq, if_neg hfin', if_neg hnz]
  by_cases hexp : biasedExp v = 0
  · refine ⟨u128Make (v.hi &&& fracMask) v.lo, ?_, ?_⟩
    · rw [if_neg (by omega), exponent, if_pos hexp]
    · rw [limbs_make, toNat_and_fracMask, significand, if_pos hexp, fraction]
  · refine ⟨u128Make ((v.hi &&& fracMask) ||| (1#64 <<< 48)) v.lo, ?_, ?_⟩
    · rw [if_pos (by omega), exponent, if_neg hexp]
    · rw [limbs_make, toNat_or_hidden, significand, if_neg hexp, fraction]
      omega

theorem f128Unpack_zero (hzero : significand v = 0) :
    f128Unpack v = { sign := signBit v, isZero := true } := by
  have hexp : biasedExp v = 0 := by
    by_contra hne
    rw [significand, if_neg hne] at hzero
    omega
  have hfrac : fraction v = 0 := by rwa [significand, if_pos hexp] at hzero
  have hz : (biasedExp v : Int) = 0 ∧ v.hi &&& fracMask = 0#64 ∧ v.lo = 0#64 :=
    ⟨by omega, (fraction_eq_zero_iff v).mp hfrac⟩
  simp only [f128Unpack, expField_eq, signField_eq]
  rw [if_neg (by omega), if_pos hz]

variable (sign : Bool)

theorem toNat_signWord : (signWord sign).toNat = (if sign then 1 else 0) * 2 ^ 63 := by
  cases sign <;> rfl

/-- A sign, an exponent field above `f` bits and a fraction do not overlap. -/
theorem toNat_fields {f biased : Nat} (hf : f ≤ 63) (hb : biased < 2 ^ (63 - f))
    {frac : BitVec 64} (hfrac : frac.toNat < 2 ^ f) :
    (signWord sign ||| (BitVec.ofInt 64 biased <<< f) ||| frac).toNat =
      (if sign then 1 else 0) * 2 ^ 63 + biased * 2 ^ f + frac.toNat := by
  have hpow : 2 ^ (63 - f) * 2 ^ f = 2 ^ 63 := by
    rw [← pow_add]
    congr 1
    omega
  have hlow : biased * 2 ^ f + frac.toNat < 2 ^ 63 := by
    have hle : (biased + 1) * 2 ^ f ≤ 2 ^ (63 - f) * 2 ^ f := mul_le_mul_right _ hb
    rw [hpow, succ_mul] at hle
    omega
  have hfield : (BitVec.ofInt 64 biased <<< f).toNat = biased <<< f := by
    have hword : biased < 2 ^ 64 := lt_of_lt_of_le hb (Nat.pow_le_pow_right (by decide) (by omega))
    rw [BitVec.ofInt_natCast, BitVec.toNat_shiftLeft, BitVec.toNat_ofNat,
      mod_eq_of_lt hword, shiftLeft_eq]
    exact mod_eq_of_lt (by omega)
  rw [← shiftLeft_eq biased] at hlow ⊢
  generalize hs : (if sign then 1 else 0 : Nat) = s
  have hsign : (signWord sign).toNat = s <<< 63 := by rw [toNat_signWord, hs, shiftLeft_eq]
  rw [BitVec.toNat_or, BitVec.toNat_or, hfield, hsign, Nat.or_assoc,
    ← shiftLeft_add_eq_or_of_lt hfrac, ← shiftLeft_add_eq_or_of_lt hlow,
    shiftLeft_eq s, Nat.add_assoc]

/-- Sign, exponent field and upper fraction do not overlap. -/
theorem toNat_hiWord (biased : Nat) (hb : biased < 2 ^ 15) (mhi : BitVec 64) :
    (signWord sign ||| (BitVec.ofInt 64 biased <<< 48) ||| (mhi &&& fracMask)).toNat =
      (if sign then 1 else 0) * 2 ^ 63 + biased * 2 ^ 48 + mhi.toNat % 2 ^ 48 := by
  have hfrac : (mhi &&& fracMask).toNat < 2 ^ 48 := by
    rw [toNat_and_fracMask]
    exact mod_lt _ (by decide)
  rw [toNat_fields sign (by decide) hb hfrac, toNat_and_fracMask]

theorem fields_of_hiWord {sign : Bool} {biased mhi : Nat} (hb : biased < 2 ^ 15) (hm : mhi < 2 ^ 48)
    (hv : v.hi.toNat = (if sign then 1 else 0) * 2 ^ 63 + biased * 2 ^ 48 + mhi) :
    signBit v = sign ∧ biasedExp v = biased ∧ fraction v = 2 ^ 64 * mhi + v.lo.toNat := by
  unfold signBit biasedExp fraction
  cases sign
  · simp only [Bool.false_eq_true, if_false] at hv
    refine ⟨decide_eq_false (by omega), by omega, by omega⟩
  · simp only [if_true] at hv
    refine ⟨decide_eq_true (by omega), by omega, by omega⟩

/-- A left shift that keeps the leading bit inside the limbs loses nothing. -/
theorem limbs_shl_of_lt {a : U128} {n : Nat} (h : limbs a * 2 ^ n < 2 ^ 128) :
    limbs (u128Shl a n) = limbs a * 2 ^ n := by
  rw [limbs_shl, mod_eq_of_lt h]

theorem limbs_lowMask {n : Nat} (hn : n < 128) :
    limbs (u128Sub (u128Shl u128One n) u128One) = 2 ^ n - 1 := by
  have hpow : 2 ^ n < 2 ^ 128 := Nat.pow_lt_pow_right (by decide) hn
  have hshl : limbs (u128Shl u128One n) = 2 ^ n := by
    rw [limbs_shl_of_lt (by rw [limbs_one, one_mul]; exact hpow), limbs_one, one_mul]
  rw [limbs_sub _ _ (by rw [hshl, limbs_one]; exact Nat.one_le_two_pow), hshl, limbs_one]

theorem isOdd_iff (a : U128) : (!u128IsZero (u128And a u128One)) = true ↔ limbs a % 2 = 1 := by
  have hbit : limbs (u128And a u128One) = limbs a % 2 := by
    rw [limbs_and, limbs_one]
    exact and_two_pow_sub_one_eq_mod (limbs a) 1
  rw [Bool.not_eq_true', ← Bool.not_eq_true, u128IsZero_iff, hbit]
  omega

/-- The rounding step of a right shift by `r + 1` places. -/
theorem roundStep_limbs (mant : U128) {r : Nat} (hr : r + 1 < 128) :
    let kept := u128Shr mant (r + 1 : Nat)
    let sticky := u128And mant (u128Sub (u128Shl u128One (r + 1 : Nat)) u128One)
    let half := u128Shl u128One (r : Nat)
    (limbs (if u128Gt sticky half || (u128Eq sticky half && !u128IsZero (u128And kept u128One))
      then u128Inc kept else kept) : Int) = roundHalfEven ((limbs mant : ℚ) / 2 ^ (r + 1)) := by
  intro kept sticky half
  have hkept : limbs kept = limbs mant / 2 ^ (r + 1) := limbs_shr mant (r + 1)
  have hsticky : limbs sticky = limbs mant % 2 ^ (r + 1) := by
    rw [limbs_and, limbs_lowMask hr]
    exact and_two_pow_sub_one_eq_mod _ _
  have hhalf : limbs half = 2 ^ r := by
    have hpow : 2 ^ r < 2 ^ 128 := Nat.pow_lt_pow_right (by decide) (by omega)
    rw [limbs_shl_of_lt (by rw [limbs_one, one_mul]; exact hpow), limbs_one, one_mul]
  have hcond : (u128Gt sticky half || (u128Eq sticky half &&
      !u128IsZero (u128And kept u128One))) = true ↔
      2 ^ r < limbs mant % 2 ^ (r + 1) ∨
        (limbs mant % 2 ^ (r + 1) = 2 ^ r ∧ (limbs mant / 2 ^ (r + 1)) % 2 = 1) := by
    rw [Bool.or_eq_true, Bool.and_eq_true, u128Gt_iff, u128Eq_iff, isOdd_iff, hsticky, hhalf, hkept]
  have hinc : limbs (u128Inc kept) = limbs kept + 1 := by
    refine limbs_inc kept ?_
    have hlt := limbs_lt mant
    have hle : limbs kept ≤ limbs mant / 2 := by
      rw [hkept, pow_succ, Nat.mul_comm, ← Nat.div_div_eq_div_mul]
      exact div_le_self _ _
    omega
  rw [roundHalfEven_div_two_pow]
  by_cases h : 2 ^ r < limbs mant % 2 ^ (r + 1) ∨
      (limbs mant % 2 ^ (r + 1) = 2 ^ r ∧ (limbs mant / 2 ^ (r + 1)) % 2 = 1)
  · rw [if_pos (hcond.mpr h), if_pos h, hinc, hkept]
  · rw [if_neg (fun hc => h (hcond.mp hc)), if_neg h, hkept]
    rfl

/-- Normalisation puts the leading bit at place 112 and rounds to nearest even. -/
theorem packNormalize_spec (hne : limbs mant ≠ 0) (exp : Int) :
    ∃ exp' mant', packNormalize exp mant = (exp', mant') ∧ 2 ^ 112 ≤ limbs mant' ∧
      limbs mant' < 2 ^ 113 ∧
      (limbs mant' : ℚ) * 2 ^ (exp' - 112) = roundTo 113 (limbs mant * 2 ^ (exp - 112)) := by
  have hlt := limbs_lt mant
  have hlow : 2 ^ log 2 (limbs mant) ≤ limbs mant := pow_log_le_self 2 hne
  have hhigh : limbs mant < 2 ^ (log 2 (limbs mant) + 1) :=
    lt_pow_succ_log_self (by decide) _
  have hclz := u128Clz_eq hne
  generalize log 2 (limbs mant) = k at *
  have hk : k < 128 := (Nat.pow_lt_pow_iff_right (by decide)).mp (lt_of_le_of_lt hlow hlt)
  have hx : (limbs mant : ℚ) ≠ 0 := by exact_mod_cast hne
  have hplace : lastPlace 113 (limbs mant : ℚ) = (k : ℤ) - 112 := by
    rw [lastPlace_of_bounds (k := k)]
    · norm_num
    · exact_mod_cast hlow
    · exact_mod_cast hhigh
  rw [roundTo_mul_zpow hx]
  rw [packNormalize, hclz]
  rcases lt_trichotomy k 112 with hsmall | rfl | hlarge
  · -- fewer than 113 bits: shifted left, exact
    obtain ⟨d, hd⟩ : ∃ d, 112 = k + d := ⟨112 - k, by omega⟩
    have hshift : (127 - (k : Int)) - (127 - 112) = (d : Nat) := by omega
    have hbits : limbs mant * 2 ^ d < 2 ^ 113 := by
      rw [show 113 = (k + 1) + d by omega, pow_add]
      exact Nat.mul_lt_mul_of_pos_right hhigh (Nat.two_pow_pos d)
    have hshl : limbs (u128Shl mant (d : Nat)) = limbs mant * 2 ^ d := limbs_shl_of_lt (by omega)
    have hexact : limbs mant < 2 ^ 113 :=
      lt_of_lt_of_le hhigh (Nat.pow_le_pow_right (by decide) (by omega))
    simp only [hshift]
    rw [if_pos (by omega)]
    refine ⟨_, _, rfl, ?_, ?_, ?_⟩
    · rw [hshl, hd, pow_add]
      exact mul_le_mul_right _ hlow
    · rw [hshl]
      exact hbits
    · rw [hshl, roundTo_natCast_of_lt hexact]
      push_cast
      rw [mul_assoc, ← zpow_natCast, ← zpow_add₀ two_ne_zero]
      congr 2
      ring
  · simp only [cast_ofNat]
    rw [if_neg (by decide), if_neg (by decide)]
    refine ⟨_, _, rfl, hlow, hhigh, ?_⟩
    rw [roundTo_natCast_of_lt (by exact hhigh)]
  · -- more than 113 bits: shifted right and rounded
    obtain ⟨r, rfl⟩ : ∃ r, k = 112 + (r + 1) := ⟨k - 113, by omega⟩
    have hrsh : -((127 - ((112 + (r + 1) : Nat) : Int)) - (127 - 112)) = (r + 1 : Nat) := by omega
    have hhalf : ((r + 1 : Nat) : Int) - 1 = (r : Nat) := by omega
    have hround := roundStep_limbs mant (r := r) (by omega)
    simp only [hrsh, hhalf]
    rw [if_neg (by omega), if_pos (by omega)]
    simp only at hround
    generalize (if (u128Gt _ _ || _) = true then _ else _ : U128) = rounded at hround ⊢
    have hvalue : roundTo 113 (limbs mant : ℚ) = limbs rounded * 2 ^ (r + 1) := by
      rw [roundTo, hplace, show ((112 + (r + 1) : Nat) : ℤ) - 112 = (r + 1 : Nat) by omega,
        zpow_natCast, ← hround]
      push_cast
      rfl
    obtain ⟨hge, hle⟩ : 2 ^ 112 ≤ limbs rounded ∧ limbs rounded ≤ 2 ^ 113 := by
      have hquotLow : 2 ^ 112 ≤ limbs mant / 2 ^ (r + 1) := by
        rw [Nat.le_div_iff_mul_le (Nat.two_pow_pos _), ← pow_add]
        exact hlow
      have hquotHigh : limbs mant / 2 ^ (r + 1) < 2 ^ 113 := by
        rw [Nat.div_lt_iff_lt_mul (Nat.two_pow_pos _), ← pow_add,
          show 113 + (r + 1) = 112 + (r + 1) + 1 by omega]
        exact hhigh
      rw [roundHalfEven_div_two_pow] at hround
      split at hround <;> omega
    have hcarry : (!u128IsZero (u128Shr rounded 113)) = true ↔ limbs rounded = 2 ^ 113 := by
      have hshr : limbs (u128Shr rounded 113) = limbs rounded / 2 ^ 113 := limbs_shr rounded 113
      rw [Bool.not_eq_true', ← Bool.not_eq_true, u128IsZero_iff, hshr]
      omega
    split
    · rename_i hc
      have hfull := hcarry.mp hc
      have hshr : limbs (u128Shr rounded 1) = 2 ^ 112 := by
        have h := limbs_shr rounded 1
        rw [hfull] at h
        exact h
      refine ⟨_, _, rfl, hshr.ge, by rw [hshr]; decide, ?_⟩
      rw [hvalue, hshr, hfull, show exp + 1 + ((r + 1 : Nat) : Int) - 112 =
        1 + (r + 1 : Nat) + (exp - 112) by ring, zpow_add₀ two_ne_zero, zpow_add₀ two_ne_zero,
        zpow_natCast]
      push_cast
      ring
    · rename_i hc
      have hlt113 : limbs rounded < 2 ^ 113 := lt_of_le_of_ne hle (fun h => hc (hcarry.mpr h))
      refine ⟨_, _, rfl, hge, hlt113, ?_⟩
      rw [hvalue, show exp + ((r + 1 : Nat) : Int) - 112 = (r + 1 : Nat) + (exp - 112) by ring,
        zpow_add₀ two_ne_zero, zpow_natCast, mul_assoc]

/-- A normalised mantissa within the exponent range is stored as it is. -/
theorem packEncode_fields (hlow : 2 ^ 112 ≤ limbs mant) (hhigh : limbs mant < 2 ^ 113)
    (hmin : -16382 ≤ exp) (hmax : exp ≤ 16383) (sign : Bool) :
    IsFinite (packEncode sign exp mant) ∧ signBit (packEncode sign exp mant) = sign ∧
      exponent (packEncode sign exp mant) = exp ∧
      significand (packEncode sign exp mant) = limbs mant := by
  obtain ⟨b, hb⟩ : ∃ b : Nat, exp + 16383 = b := ⟨(exp + 16383).toNat, by omega⟩
  have hmasked : limbs (u128And mant (u128Sub (u128Shl u128One 112) u128One)) =
      limbs mant - 2 ^ 112 := by
    have hmask : limbs (u128Sub (u128Shl u128One 112) u128One) = 2 ^ 112 - 1 :=
      limbs_lowMask (n := 112) (by decide)
    rw [limbs_and, hmask, and_two_pow_sub_one_eq_mod]
    omega
  simp only [packEncode]
  rw [if_neg (by omega), if_neg (by omega), hb]
  generalize u128And mant (u128Sub (u128Shl u128One 112) u128One) = low at hmasked
  have hlo := low.lo.isLt
  have hfraction : 2 ^ 64 * low.hi.toNat + low.lo.toNat = limbs mant - 2 ^ 112 := hmasked
  have hsmall : low.hi.toNat % 2 ^ 48 = low.hi.toNat := by omega
  have hword := toNat_hiWord sign b (by omega) low.hi
  rw [hsmall] at hword
  generalize hv : (⟨low.lo, signWord sign ||| (BitVec.ofInt 64 b <<< 48) |||
    (low.hi &&& fracMask)⟩ : LrF128) = v
  have hvhi : v.hi.toNat = (if sign then 1 else 0) * 2 ^ 63 + b * 2 ^ 48 + low.hi.toNat := by
    rw [← hv]
    exact hword
  obtain ⟨hsign, hexp, hfrac⟩ := fields_of_hiWord (by omega) (by omega) hvhi
  have hvlo : v.lo = low.lo := by rw [← hv]
  rw [hvlo, hfraction] at hfrac
  refine ⟨by unfold IsFinite; omega, hsign, ?_, ?_⟩
  · rw [exponent, hexp, if_neg (by omega)]
    omega
  · rw [significand, hexp, if_neg (by omega), hfrac, Nat.add_sub_cancel' hlow]

/-- A normalised mantissa within the exponent range is encoded exactly. -/
theorem packEncode_normal (hlow : 2 ^ 112 ≤ limbs mant) (hhigh : limbs mant < 2 ^ 113)
    (hmin : -16382 ≤ exp) (hmax : exp ≤ 16383) (sign : Bool) :
    IsFinite (packEncode sign exp mant) ∧ signBit (packEncode sign exp mant) = sign ∧
      magnitude (packEncode sign exp mant) = limbs mant * 2 ^ (exp - 112) := by
  obtain ⟨hfin, hsign, hexp, hsig⟩ := packEncode_fields hlow hhigh hmin hmax sign
  exact ⟨hfin, hsign, by rw [magnitude, hsig, hexp]⟩

/-- Below the exponent range the exponent field is zero, above it the result is
an infinity. -/
theorem packEncode_not_normal (mant : U128) (hout : exp < -16382 ∨ 16383 < exp) (sign : Bool) :
    signBit (packEncode sign exp mant) = sign ∧
      (IsFinite (packEncode sign exp mant) →
        magnitude (packEncode sign exp mant) < 2 ^ (-16382 : ℤ)) := by
  have hsmall : ∀ v : LrF128, biasedExp v = 0 → magnitude v < 2 ^ (-16382 : ℤ) := by
    intro v hexp
    have hfrac : (fraction v : ℚ) < 2 ^ 112 := by exact_mod_cast fraction_lt v
    rw [magnitude, significand, exponent, if_pos hexp, if_pos hexp,
      show (-16382 : ℤ) - 112 = -16382 + -112 by norm_num, zpow_add₀ two_ne_zero, mul_left_comm]
    refine mul_lt_of_lt_one_right (by positivity) ?_
    rw [zpow_neg, ← div_eq_mul_inv, div_lt_one (by positivity)]
    exact_mod_cast hfrac
  have hzeroHi : ∀ (lo mhi : BitVec 64),
      signBit ⟨lo, signWord sign ||| (mhi &&& fracMask)⟩ = sign ∧
      biasedExp ⟨lo, signWord sign ||| (mhi &&& fracMask)⟩ = 0 := by
    intro lo mhi
    have hword := toNat_hiWord sign 0 (by decide) mhi
    have hnone : BitVec.ofInt 64 ((0 : Nat) : Int) <<< 48 = 0#64 := by decide
    rw [hnone, BitVec.or_zero] at hword
    obtain ⟨hsign, hexp, -⟩ := fields_of_hiWord
      (v := ⟨lo, signWord sign ||| (mhi &&& fracMask)⟩) (by decide) (mod_lt _ (by decide)) hword
    exact ⟨hsign, hexp⟩
  simp only [packEncode]
  split
  · split
    · have h := hzeroHi 0#64 0#64
      rw [BitVec.zero_and, BitVec.or_zero] at h
      exact ⟨h.1, fun _ => hsmall _ h.2⟩
    · have h := hzeroHi (u128Shr mant (-16382 - exp + 1)).lo (u128Shr mant (-16382 - exp + 1)).hi
      exact ⟨h.1, fun _ => hsmall _ h.2⟩
  · rw [if_pos (by omega)]
    have hword := toNat_hiWord sign 0x7FFF (by decide) 0#64
    rw [BitVec.zero_and, BitVec.or_zero] at hword
    obtain ⟨hsign, hexp, -⟩ := fields_of_hiWord
      (v := ⟨0#64, signWord sign ||| (0x7FFF#64 <<< 48)⟩) (by decide)
      (mod_lt _ (by decide)) hword
    exact ⟨hsign, fun hfin => absurd hexp hfin⟩

theorem fields_zero :
    signBit ⟨0#64, signWord sign⟩ = sign ∧ biasedExp ⟨0#64, signWord sign⟩ = 0 ∧
      fraction ⟨0#64, signWord sign⟩ = 0 := by
  cases sign <;> decide

/-- Packing keeps the sign it is given, whatever the size of the result. -/
theorem signBit_f128PackParts (exp : Int) (mant : U128) :
    signBit (f128PackParts sign exp mant) = sign := by
  unfold f128PackParts
  split
  · exact (fields_zero sign).1
  · rename_i hzero
    obtain ⟨exp', mant', hnorm, hlow, hhigh, -⟩ :=
      packNormalize_spec (fun h => hzero ((u128IsZero_iff mant).mpr h)) exp
    rw [hnorm]
    by_cases hrange : -16382 ≤ exp' ∧ exp' ≤ 16383
    · exact (packEncode_normal hlow hhigh hrange.1 hrange.2 sign).2.1
    · exact (packEncode_not_normal mant' (by omega) sign).1

theorem InNormalRange.ne_zero {y : ℚ} (hy : InNormalRange y) : y ≠ 0 := by
  rintro rfl
  have h := hy.1
  rw [abs_zero] at h
  exact absurd h (not_le.mpr (by positivity))

/-- Packing rounds: a result is a given normal number exactly if the mantissa
rounds to it. -/
theorem f128PackParts_encodes_iff (exp : Int) (mant : U128) {y : ℚ} (hy : InNormalRange y) :
    Encodes (f128PackParts sign exp mant) y ↔
      (if sign then -roundTo 113 (limbs mant * 2 ^ (exp - 112))
        else roundTo 113 (limbs mant * 2 ^ (exp - 112))) = y := by
  by_cases hzero : u128IsZero mant = true
  · have hval : toRat ⟨0#64, signWord sign⟩ = 0 := by
      have hsig : significand ⟨0#64, signWord sign⟩ = 0 := by
        rw [significand, if_pos (fields_zero sign).2.1, (fields_zero sign).2.2]
      by_contra hne
      exact (toRat_ne_zero_iff _).mp hne hsig
    rw [f128PackParts, if_pos hzero, (u128IsZero_iff mant).mp hzero, cast_zero, zero_mul,
      roundTo_zero, neg_zero, ite_self]
    exact ⟨fun henc => absurd (henc.2.symm.trans hval) hy.ne_zero,
      fun h => absurd h.symm hy.ne_zero⟩
  obtain ⟨exp', mant', hnorm, hlow, hhigh, hvalue⟩ :=
    packNormalize_spec (fun h => hzero ((u128IsZero_iff mant).mpr h)) exp
  rw [f128PackParts, if_neg hzero, hnorm, ← hvalue]
  by_cases hrange : -16382 ≤ exp' ∧ exp' ≤ 16383
  · obtain ⟨hfin, hsign, hmag⟩ := packEncode_normal hlow hhigh hrange.1 hrange.2 sign
    simp only [Encodes, hfin, true_and, toRat, hsign, hmag]
  · obtain ⟨hsign, hmag⟩ := packEncode_not_normal mant' (by omega : exp' < -16382 ∨ 16383 < exp') sign
    refine ⟨?_, ?_⟩
    · rintro ⟨hfin, hval⟩
      have hlt := hmag hfin
      rw [← abs_toRat, hval] at hlt
      exact absurd hy.1 (not_le.mpr hlt)
    · intro hval
      exfalso
      have habs : |y| = limbs mant' * 2 ^ (exp' - 112) := by
        rw [← hval]
        split
        · rw [abs_neg, abs_of_nonneg (by positivity)]
        · rw [abs_of_nonneg (by positivity)]
      have hlowQ : (2 : ℚ) ^ (112 : ℤ) ≤ limbs mant' := by exact_mod_cast hlow
      have hhighQ : (limbs mant' : ℚ) < 2 ^ (113 : ℤ) := by exact_mod_cast hhigh
      have hunit : (0 : ℚ) < 2 ^ (exp' - 112) := by positivity
      obtain ⟨hmin, hmax⟩ := hy
      rw [habs] at hmin hmax
      have hupper : (limbs mant' : ℚ) * 2 ^ (exp' - 112) < 2 ^ (exp' + 1) := by
        rw [show exp' + 1 = 113 + (exp' - 112) by ring, zpow_add₀ two_ne_zero]
        exact mul_lt_mul_of_pos_right hhighQ hunit
      have hlower : (2 : ℚ) ^ exp' ≤ limbs mant' * 2 ^ (exp' - 112) := by
        nth_rewrite 1 [show exp' = 112 + (exp' - 112) by ring]
        rw [zpow_add₀ two_ne_zero]
        exact mul_le_mul_of_nonneg_right hlowQ hunit.le
      have h₁ : (-16382 : ℤ) < exp' + 1 :=
        (zpow_lt_zpow_iff_right₀ (by norm_num : (1 : ℚ) < 2)).mp (lt_of_le_of_lt hmin hupper)
      have h₂ : exp' < 16384 :=
        (zpow_lt_zpow_iff_right₀ (by norm_num : (1 : ℚ) < 2)).mp (lt_of_le_of_lt hlower hmax)
      omega

end Liric.Guarantees.Float128
