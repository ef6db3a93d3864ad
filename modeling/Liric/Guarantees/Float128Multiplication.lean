import Liric.Guarantees.Float128Addition

/-!
# Multiplication of binary128 numbers

The 226-bit product of two significands is formed from four products of words, and
each of these from four products of half words. Between two normal numbers it is cut
at place 112 or 113 of its lower half, so the high cut is never taken.
-/
namespace Liric.Guarantees.Float128
open Source.Float128 Lib

theorem toNat_and_lowHalf (w : BitVec 64) : (w &&& lowHalf).toNat = w.toNat % 2 ^ 32 := by
  rw [BitVec.toNat_and]
  exact Nat.and_two_pow_sub_one_eq_mod w.toNat 32

theorem toNat_upperHalf (w : BitVec 64) : (w >>> 32).toNat = w.toNat / 2 ^ 32 := by
  rw [BitVec.toNat_ushiftRight, Nat.shiftRight_eq_div_pow]

/-- A product of half words fits a word. -/
theorem halves_mul_le {x y : Nat} (hx : x < 2 ^ 32) (hy : y < 2 ^ 32) :
    x * y ≤ (2 ^ 32 - 1) * (2 ^ 32 - 1) :=
  Nat.mul_le_mul (by omega) (by omega)

theorem toNat_halves_mul {x y : BitVec 64} (hx : x.toNat < 2 ^ 32) (hy : y.toNat < 2 ^ 32) :
    (x * y).toNat = x.toNat * y.toNat := by
  have hle := halves_mul_le hx hy
  rw [BitVec.toNat_mul, Nat.mod_eq_of_lt (by omega)]

/-- The lower half of `x`, moved up, over the lower half of `y`. -/
theorem toNat_joinHalves (x y : BitVec 64) :
    ((x <<< 32) ||| (y &&& lowHalf)).toNat = x.toNat % 2 ^ 32 * 2 ^ 32 + y.toNat % 2 ^ 32 := by
  have hlow : y.toNat % 2 ^ 32 < 2 ^ 32 := Nat.mod_lt _ (by decide)
  have hshl : (x <<< 32).toNat = (x.toNat % 2 ^ 32) <<< 32 := by
    rw [BitVec.toNat_shiftLeft, Nat.shiftLeft_eq, Nat.shiftLeft_eq]
    omega
  rw [BitVec.toNat_or, toNat_and_lowHalf, hshl, ← Nat.shiftLeft_add_eq_or_of_lt hlow,
    Nat.shiftLeft_eq]

theorem limbs_mul64x64 (a b : BitVec 64) : limbs (mul64x64 a b) = a.toNat * b.toNat := by
  have hsplit : a.toNat * b.toNat =
      a.toNat % 2 ^ 32 * (b.toNat % 2 ^ 32) +
        2 ^ 32 * (a.toNat % 2 ^ 32 * (b.toNat / 2 ^ 32)) +
        2 ^ 32 * (a.toNat / 2 ^ 32 * (b.toNat % 2 ^ 32)) +
        2 ^ 64 * (a.toNat / 2 ^ 32 * (b.toNat / 2 ^ 32)) := by
    nth_rewrite 1 [← Nat.div_add_mod a.toNat (2 ^ 32), ← Nat.div_add_mod b.toNat (2 ^ 32)]
    ring
  have hal : (a &&& lowHalf).toNat < 2 ^ 32 := by
    rw [toNat_and_lowHalf]
    exact Nat.mod_lt _ (by decide)
  have hbl : (b &&& lowHalf).toNat < 2 ^ 32 := by
    rw [toNat_and_lowHalf]
    exact Nat.mod_lt _ (by decide)
  have hah : (a >>> 32).toNat < 2 ^ 32 := by
    rw [toNat_upperHalf]
    have := a.isLt
    omega
  have hbh : (b >>> 32).toNat < 2 ^ 32 := by
    rw [toNat_upperHalf]
    have := b.isLt
    omega
  rw [hsplit, ← toNat_and_lowHalf, ← toNat_and_lowHalf, ← toNat_upperHalf, ← toNat_upperHalf,
    ← toNat_halves_mul hal hbl, ← toNat_halves_mul hal hbh, ← toNat_halves_mul hah hbl,
    ← toNat_halves_mul hah hbh]
  have h0 := halves_mul_le hal hbl
  have h1 := halves_mul_le hal hbh
  have h2 := halves_mul_le hah hbl
  have h3 := halves_mul_le hah hbh
  rw [← toNat_halves_mul hal hbl] at h0
  rw [← toNat_halves_mul hal hbh] at h1
  rw [← toNat_halves_mul hah hbl] at h2
  rw [← toNat_halves_mul hah hbh] at h3
  simp only [mul64x64]
  generalize (a &&& lowHalf) * (b &&& lowHalf) = p0 at *
  generalize (a &&& lowHalf) * (b >>> 32) = p1 at *
  generalize (a >>> 32) * (b &&& lowHalf) = p2 at *
  generalize (a >>> 32) * (b >>> 32) = p3 at *
  have hmid : (p0 >>> 32 + (p1 &&& lowHalf) + (p2 &&& lowHalf)).toNat =
      p0.toNat / 2 ^ 32 + p1.toNat % 2 ^ 32 + p2.toNat % 2 ^ 32 := by
    rw [BitVec.toNat_add, BitVec.toNat_add, toNat_and_lowHalf, toNat_and_lowHalf, toNat_upperHalf]
    omega
  simp only [limbs, toNat_joinHalves, BitVec.toNat_add, toNat_upperHalf, toNat_and_lowHalf] at hmid ⊢
  omega

/-- A word sum and its carry. -/
theorem toNat_add_carry (a b : BitVec 64) :
    (a + b).toNat + 2 ^ 64 * (carryOf (a + b) a).toNat = a.toNat + b.toNat := by
  have ha := a.isLt
  have hb := b.isLt
  simp only [carryOf, BitVec.lt_def, BitVec.toNat_add]
  split <;> simp only [BitVec.toNat_ofNat] <;> omega

/-- The columns of the four products, added with their carries. -/
theorem columns_sum {c00 c01 c10 c11 : U128} {m1 m2 h1 h2 h3 mc1 mc2 hc1 hc2 hc3 : Nat}
    (hm1 : m1 + 2 ^ 64 * mc1 = c00.hi.toNat + c01.lo.toNat)
    (hm2 : m2 + 2 ^ 64 * mc2 = m1 + c10.lo.toNat)
    (hh1 : h1 + 2 ^ 64 * hc1 = c11.lo.toNat + c01.hi.toNat)
    (hh2 : h2 + 2 ^ 64 * hc2 = h1 + c10.hi.toNat) (hh3 : h3 + 2 ^ 64 * hc3 = h2 + (mc1 + mc2)) :
    2 ^ 128 * (2 ^ 64 * (c11.hi.toNat + (hc1 + hc2 + hc3)) + h3) +
        (2 ^ 64 * m2 + c00.lo.toNat) =
      limbs c00 + 2 ^ 64 * limbs c01 + 2 ^ 64 * limbs c10 + 2 ^ 128 * limbs c11 := by
  unfold limbs
  omega

theorem limbs_mul128 (a b : U128) :
    2 ^ 128 * limbs (u128Mul128 a b).1 + limbs (u128Mul128 a b).2 = limbs a * limbs b := by
  have hbound : limbs a * limbs b < 2 ^ 128 * 2 ^ 128 := Nat.mul_lt_mul'' (limbs_lt a) (limbs_lt b)
  have hsplit : limbs a * limbs b = limbs (mul64x64 a.lo b.lo) +
      2 ^ 64 * limbs (mul64x64 a.lo b.hi) + 2 ^ 64 * limbs (mul64x64 a.hi b.lo) +
      2 ^ 128 * limbs (mul64x64 a.hi b.hi) := by
    simp only [limbs_mul64x64]
    unfold limbs
    ring
  unfold u128Mul128
  generalize mul64x64 a.lo b.lo = c00 at *
  generalize mul64x64 a.lo b.hi = c01 at *
  generalize mul64x64 a.hi b.lo = c10 at *
  generalize mul64x64 a.hi b.hi = c11 at *
  have hm1 := toNat_add_carry c00.hi c01.lo
  have hm2 := toNat_add_carry (c00.hi + c01.lo) c10.lo
  have hh1 := toNat_add_carry c11.lo c01.hi
  have hh2 := toNat_add_carry (c11.lo + c01.hi) c10.hi
  have hh3 := toNat_add_carry (c11.lo + c01.hi + c10.hi)
    (carryOf (c00.hi + c01.lo) c00.hi + carryOf (c00.hi + c01.lo + c10.lo) (c00.hi + c01.lo))
  have hcarries : (carryOf (c00.hi + c01.lo) c00.hi +
      carryOf (c00.hi + c01.lo + c10.lo) (c00.hi + c01.lo)).toNat =
      (carryOf (c00.hi + c01.lo) c00.hi).toNat +
        (carryOf (c00.hi + c01.lo + c10.lo) (c00.hi + c01.lo)).toNat := by
    rw [BitVec.toNat_add]
    omega
  rw [hcarries] at hh3
  have hsum := columns_sum hm1 hm2 hh1 hh2 hh3
  rw [← hsplit] at hsum
  -- nothing leaves the top word, because the product has 256 bits
  have htop : ∀ x y z w : BitVec 64, w.toNat + (x.toNat + y.toNat + z.toNat) < 2 ^ 64 →
      (w + (x + y + z)).toNat = w.toNat + (x.toNat + y.toNat + z.toNat) := by
    intro x y z w hlt
    simp only [BitVec.toNat_add]
    omega
  rw [← hsum]
  unfold limbs
  simp only
  rw [htop _ _ _ _ (by omega)]

theorem u128Bit_eq (a : U128) (n : Nat) : u128Bit a n = (limbs a).testBit n := by
  have hbit : ∀ w : BitVec 64, (w &&& 1#64 != 0#64) = w.toNat.testBit 0 := by
    intro w
    have hmod : (w &&& 1#64).toNat = w.toNat % 2 := by
      rw [BitVec.toNat_and]
      exact Nat.and_two_pow_sub_one_eq_mod w.toNat 1
    rw [Bool.eq_iff_iff, bne_iff_ne, ne_eq, ← BitVec.toNat_inj, hmod, Nat.testBit_zero,
      decide_eq_true_eq, BitVec.toNat_ofNat]
    omega
  rw [testBit_limbs, u128Bit]
  by_cases hn : n < 64
  · rw [if_neg (by omega), if_pos hn, hbit, BitVec.toNat_ushiftRight, Nat.testBit_shiftRight]
    simp
  · rw [if_pos (by omega), if_neg hn, hbit, BitVec.toNat_ushiftRight, Nat.testBit_shiftRight,
      show ((n : Int) - 64).toNat = n - 64 by omega]
    simp

/-- The bit below the cut and the bits below it. -/
theorem mod_two_pow_succ (m r : Nat) :
    m % 2 ^ (r + 1) = (if m.testBit r then 2 ^ r else 0) + m % 2 ^ r := by
  rw [pow_succ, Nat.mod_mul, Nat.add_comm, Nat.testBit_eq_decide_div_mod_eq]
  obtain h | h := Nat.mod_two_eq_zero_or_one (m / 2 ^ r) <;> simp [h]

/-- Rounding with a round bit and sticky bits. -/
theorem roundBit_iff (m r q : Nat) :
    (2 ^ r < m % 2 ^ (r + 1) ∨ (m % 2 ^ (r + 1) = 2 ^ r ∧ q % 2 = 1)) ↔
      m.testBit r = true ∧ (m % 2 ^ r ≠ 0 ∨ q % 2 = 1) := by
  have hlt : m % 2 ^ r < 2 ^ r := Nat.mod_lt _ (Nat.two_pow_pos r)
  rw [mod_two_pow_succ]
  cases m.testBit r with
  | false =>
    simp only [Bool.false_eq_true, if_false, false_and, iff_false]
    omega
  | true =>
    simp only [if_true, true_and]
    omega

/-- A cut in the lower half rounds the product to nearest even. -/
theorem limbs_mulRoundLow (hi lo : U128) {r : Nat} (hr : r + 1 < 128) (hfits : limbs hi < 2 ^ r) :
    (limbs (mulRoundLow hi lo (r + 1 : Nat)) : Int) =
      roundHalfEven (((2 ^ 128 * limbs hi + limbs lo : Nat) : ℚ) / 2 ^ (r + 1)) := by
  obtain ⟨d, hd⟩ : ∃ d, 128 = r + 1 + d := ⟨128 - (r + 1), by omega⟩
  have hlo := limbs_lt lo
  have hpow : 2 ^ 128 = 2 ^ (r + 1) * 2 ^ d := by rw [hd, pow_add]
  have hlowQuot : limbs lo / 2 ^ (r + 1) < 2 ^ d := by
    rw [Nat.div_lt_iff_lt_mul (Nat.two_pow_pos _), Nat.mul_comm, ← hpow]
    exact hlo
  have hquot : (2 ^ 128 * limbs hi + limbs lo) / 2 ^ (r + 1) =
      limbs hi * 2 ^ d + limbs lo / 2 ^ (r + 1) := by
    rw [hpow, Nat.mul_assoc, Nat.mul_add_div (Nat.two_pow_pos _), Nat.mul_comm (2 ^ d)]
  have hmod : ∀ j, j ≤ 128 → (2 ^ 128 * limbs hi + limbs lo) % 2 ^ j = limbs lo % 2 ^ j := by
    intro j hj
    rw [Nat.add_mod, Nat.mod_eq_zero_of_dvd (Dvd.dvd.mul_right (Nat.pow_dvd_pow 2 hj) _),
      Nat.zero_add, Nat.mod_mod]
  have hkept : limbs (u128Or (u128Shl hi (128 - (r + 1 : Nat) : Int)) (u128Shr lo (r + 1 : Nat))) =
      (2 ^ 128 * limbs hi + limbs lo) / 2 ^ (r + 1) := by
    have hshl : limbs (u128Shl hi (d : Nat)) = limbs hi * 2 ^ d := by
      refine limbs_shl_of_lt ?_
      calc limbs hi * 2 ^ d < 2 ^ r * 2 ^ d := Nat.mul_lt_mul_of_pos_right hfits (Nat.two_pow_pos d)
        _ ≤ 2 ^ 128 := by rw [← pow_add]; exact Nat.pow_le_pow_right (by decide) (by omega)
    rw [limbs_or, show (128 - (r + 1 : Nat) : Int) = (d : Nat) by omega, hshl, limbs_shr, hquot,
      ← Nat.shiftLeft_eq, ← Nat.shiftLeft_add_eq_or_of_lt hlowQuot]
  have hsticky : limbs (u128And lo (u128Sub (u128Shl u128One (r : Nat)) u128One)) =
      limbs lo % 2 ^ r := by
    rw [limbs_and, limbs_lowMask (by omega)]
    exact Nat.and_two_pow_sub_one_eq_mod _ _
  have hinc : ∀ q : U128, limbs q = (2 ^ 128 * limbs hi + limbs lo) / 2 ^ (r + 1) →
      limbs (u128Inc q) = limbs q + 1 := by
    intro q hq
    refine limbs_inc q ?_
    have hle : limbs hi * 2 ^ d + 2 ^ d ≤ 2 ^ r * 2 ^ d := by
      rw [← Nat.succ_mul]
      exact Nat.mul_le_mul_right _ hfits
    have hr2 : 2 ^ r * 2 ^ d * 2 = 2 ^ 128 := by
      rw [hpow, pow_succ]
      ring
    rw [hq, hquot]
    omega
  rw [roundHalfEven_div_two_pow, hmod _ (by omega)]
  simp only [roundBit_iff]
  have hcond : (u128Bit lo ((r + 1 : Nat) - 1 : Int) && (!u128IsZero
      (u128And lo (u128Sub (u128Shl u128One ((r + 1 : Nat) - 1 : Int)) u128One)) ||
      !u128IsZero (u128And (u128Or (u128Shl hi (128 - (r + 1 : Nat) : Int))
        (u128Shr lo (r + 1 : Nat))) u128One))) = true ↔
      (limbs lo).testBit r = true ∧ (limbs lo % 2 ^ r ≠ 0 ∨
        (2 ^ 128 * limbs hi + limbs lo) / 2 ^ (r + 1) % 2 = 1) := by
    rw [show ((r + 1 : Nat) - 1 : Int) = (r : Nat) by omega, Bool.and_eq_true, Bool.or_eq_true,
      isOdd_iff, Bool.not_eq_true', ← Bool.not_eq_true, u128IsZero_iff, u128Bit_eq, hsticky, hkept]
  simp only [mulRoundLow]
  by_cases h : (limbs lo).testBit r = true ∧ (limbs lo % 2 ^ r ≠ 0 ∨
      (2 ^ 128 * limbs hi + limbs lo) / 2 ^ (r + 1) % 2 = 1)
  · rw [if_pos (hcond.mpr h), if_pos h, hinc _ hkept, hkept]
  · rw [if_neg (fun hc => h (hcond.mp hc)), if_neg h, hkept]
    rfl

/-- A number with the hidden bit. -/
def IsNormal (v : LrF128) : Prop := biasedExp v ≠ 0 ∧ biasedExp v ≠ 0x7FFF

instance (v : LrF128) : Decidable (IsNormal v) := inferInstanceAs (Decidable (_ ∧ _))

theorem IsNormal.significand_ge {v : LrF128} (h : IsNormal v) : 2 ^ 112 ≤ significand v := by
  rw [significand, if_neg h.1]
  exact Nat.le_add_right _ _

theorem toRat_mul (a b : LrF128) :
    toRat a * toRat b = signed (signBit a ^^ signBit b) (magnitude a * magnitude b) := by
  rw [toRat_eq_signed, toRat_eq_signed]
  cases signBit a <;> cases signBit b <;> simp [signed]

theorem magnitude_mul (a b : LrF128) :
    magnitude a * magnitude b = ((significand a * significand b : Nat) : ℚ) *
      2 ^ (exponent a + exponent b - 224) := by
  rw [magnitude, magnitude, show exponent a + exponent b - 224 =
    (exponent a - 112) + (exponent b - 112) by ring, zpow_add₀ two_ne_zero]
  push_cast
  ring

/-- What `f128_mul` packs for two normal numbers: their product with 113 significant
bits. -/
theorem f128Mul_eq {a b : LrF128} (ha : IsNormal a) (hb : IsNormal b) :
    ∃ exp mant, f128Mul a b = f128PackParts (signBit a ^^ signBit b) exp mant ∧
      limbs mant ≤ 2 ^ 113 ∧
      (limbs mant : ℚ) * 2 ^ (exp - 112) = roundTo 113 (magnitude a * magnitude b) := by
  have hsa := ha.significand_ge
  have hsb := hb.significand_ge
  obtain ⟨mantA, hunpackA, hmantA⟩ := f128Unpack_finite ha.2 (by omega)
  obtain ⟨mantB, hunpackB, hmantB⟩ := f128Unpack_finite hb.2 (by omega)
  have hprod := limbs_mul128 mantA mantB
  rw [hmantA, hmantB] at hprod
  have hlow : 2 ^ 112 * 2 ^ 112 ≤ significand a * significand b := Nat.mul_le_mul hsa hsb
  have hhigh : significand a * significand b < 2 ^ 113 * 2 ^ 113 :=
    Nat.mul_lt_mul'' (significand_lt a) (significand_lt b)
  simp only [f128Mul, hunpackA, hunpackB, Bool.false_eq_true, Bool.or_self, if_false, f128MulFinite]
  rw [magnitude_mul, ← hprod]
  rw [← hprod] at hlow hhigh
  generalize u128Mul128 mantA mantB = prod at *
  have hlo := limbs_lt prod.2
  have hne : limbs prod.1 ≠ 0 := by omega
  -- the leading bit of the upper half is at place 96 or 97, and the cut is 16 places above
  obtain ⟨r, hlog⟩ : ∃ r, r = Nat.log 2 (limbs prod.1) + 15 := ⟨_, rfl⟩
  have hr : r ≤ 112 := by
    have h98 : Nat.log 2 (limbs prod.1) < 98 := Nat.log_lt_of_lt_pow hne (by omega)
    omega
  have hcut : 255 - u128Clz prod.1 - 112 = (r + 1 : Nat) := by
    rw [u128Clz_eq hne, hlog]
    push_cast
    ring
  have hup := Nat.lt_pow_succ_log_self (by decide : 1 < 2) (limbs prod.1)
  have hdown := Nat.pow_log_le_self 2 hne
  have hfits : limbs prod.1 < 2 ^ r :=
    lt_of_lt_of_le hup (Nat.pow_le_pow_right (by decide) (by omega))
  have hround := limbs_mulRoundLow prod.1 prod.2 (r := r) (by omega) hfits
  have hlowP : 2 ^ (r + 113) ≤ 2 ^ 128 * limbs prod.1 + limbs prod.2 := by
    rw [show r + 113 = 128 + Nat.log 2 (limbs prod.1) by omega, pow_add]
    omega
  have hhighP : 2 ^ 128 * limbs prod.1 + limbs prod.2 < 2 ^ (r + 114) := by
    rw [show r + 114 = 128 + (Nat.log 2 (limbs prod.1) + 1) by omega, pow_add]
    omega
  have hplace : lastPlace 113 ((2 ^ 128 * limbs prod.1 + limbs prod.2 : Nat) : ℚ) =
      (r + 1 : Nat) := by
    rw [lastPlace_of_bounds (k := (r + 113 : Nat))]
    · push_cast
      ring
    · exact_mod_cast hlowP
    · exact_mod_cast hhighP
  rw [hcut, if_neg (by omega)]
  refine ⟨_, _, rfl, ?_, ?_⟩
  · have hquot : (2 ^ 128 * limbs prod.1 + limbs prod.2) / 2 ^ (r + 1) < 2 ^ 113 := by
      rw [Nat.div_lt_iff_lt_mul (Nat.two_pow_pos _), ← pow_add,
        show 113 + (r + 1) = r + 114 by omega]
      exact hhighP
    rw [roundHalfEven_div_two_pow] at hround
    split at hround <;> omega
  · have hP : ((2 ^ 128 * limbs prod.1 + limbs prod.2 : Nat) : ℚ) ≠ 0 := by
      have hpos : 0 < 2 ^ 128 * limbs prod.1 + limbs prod.2 := by omega
      exact_mod_cast hpos.ne'
    rw [roundTo_mul_zpow hP, roundTo, hplace, zpow_natCast, ← hround,
      show exponent a + exponent b + (((r + 1 : Nat) : Int) - 112) - 112 =
        (r + 1 : Nat) + (exponent a + exponent b - 224) by ring, zpow_add₀ two_ne_zero,
      zpow_natCast, mul_assoc]
    push_cast
    rfl

/-- The product of two normal numbers is rounded to nearest even, if it rounds to a
normal number. -/
theorem f128Mul_correct (a b : LrF128) (ha : IsNormal a) (hb : IsNormal b)
    (hnormal : InNormalRange (roundTo 113 (toRat a * toRat b))) :
    Encodes (f128Mul a b) (roundTo 113 (toRat a * toRat b)) := by
  obtain ⟨exp, mant, hrun, hbits, hvalue⟩ := f128Mul_eq ha hb
  rw [hrun, f128PackParts_encodes_iff _ _ _ hnormal, toRat_mul, roundTo_signed, ← hvalue]
  have hexact : roundTo 113 ((limbs mant : ℚ) * 2 ^ (exp - 112)) =
      limbs mant * 2 ^ (exp - 112) := by
    rcases Nat.eq_zero_or_pos (limbs mant) with hz | hz
    · rw [hz, Nat.cast_zero, zero_mul, roundTo_zero]
    · rw [roundTo_mul_zpow (by exact_mod_cast hz.ne'), roundTo_natCast_of_le (by decide) hbits]
  rw [hexact]
  rfl

/-- `3.0 * 3.0`. -/
theorem f128Mul_correct_three_three :
    toRat ⟨0, 0x4000800000000000⟩ = 3 ∧
      Encodes (f128Mul ⟨0, 0x4000800000000000⟩ ⟨0, 0x4000800000000000⟩) 9 := by
  have hthree : toRat ⟨0, 0x4000800000000000⟩ = 3 := by
    rw [toRat_of_fields (m := 3 * 2 ^ 111) (e := 1) (by decide) (by decide) (by decide)]
    norm_num
  have hnine : roundTo 113 (3 * 3) = 9 := by
    have h := roundTo_natCast_of_lt (p := 113) (m := 9) (by decide)
    norm_num at h ⊢
    exact h
  have hnormal : InNormalRange (roundTo 113 (3 * 3)) := by
    rw [hnine]
    refine ⟨?_, ?_⟩
    · exact le_trans (zpow_le_zpow_right₀ (by norm_num) (by norm_num : (-16382 : ℤ) ≤ 0))
        (by norm_num)
    · exact lt_of_lt_of_le (by norm_num : |(9 : ℚ)| < 2 ^ (4 : ℤ))
        (zpow_le_zpow_right₀ (by norm_num) (by norm_num))
  have h := f128Mul_correct ⟨0, 0x4000800000000000⟩ ⟨0, 0x4000800000000000⟩ (by decide)
    (by decide) (by rw [hthree]; exact hnormal)
  rw [hthree, hnine] at h
  exact ⟨hthree, h⟩

end Liric.Guarantees.Float128
