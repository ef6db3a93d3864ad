import Liric.Guarantees.Float128Multiplication
import Liric.Lib.InterchangeFormat

/-!
# Conversions to and from binary128

Packing undoes unpacking exactly on the numbers with a hidden bit: a subnormal number
comes back with half of its fraction. A double or float that is not subnormal is
widened exactly, a subnormal one comes out too small by the width of its fraction.
Integers are converted exactly, and back by truncation.
-/
namespace Liric.Guarantees.Float128
open Source.Float128
open Lib.FloatFormat (binary64 binary32 expField_lt fracField_lt)
open Lib

/-- An encoding is its sign, exponent field and fraction. -/
theorem eq_of_fields {v w : LrF128} (hsign : signBit v = signBit w)
    (hexp : biasedExp v = biasedExp w) (hfrac : fraction v = fraction w) : v = w := by
  rw [signBit, signBit, decide_eq_decide] at hsign
  unfold biasedExp at hexp
  unfold fraction at hfrac
  ext1
  · exact BitVec.eq_of_toNat_eq (by omega)
  · exact BitVec.eq_of_toNat_eq (by omega)

/-- The exponent field and the fraction from the exponent and the significand. -/
theorem eq_of_sizes {v w : LrF128} (hsign : signBit v = signBit w)
    (hexp : exponent v = exponent w) (hsig : significand v = significand w) : v = w := by
  have hv := fraction_lt v
  have hw := fraction_lt w
  unfold exponent at hexp
  unfold significand at hsig
  refine eq_of_fields hsign ?_ ?_
  · split at hexp <;> split at hexp <;> rename_i h h' <;> simp only [h, h', if_true, if_false] at hsig
      <;> omega
  · split at hsig <;> split at hsig <;> omega

variable {mant : U128}

/-- A mantissa with its leading bit at place 112 is not shifted. -/
theorem f128PackParts_normalized (hlow : 2 ^ 112 ≤ limbs mant)
    (hhigh : limbs mant < 2 ^ 113) (sign : Bool) (exp : Int) :
    f128PackParts sign exp mant = packEncode sign exp mant := by
  have hne : limbs mant ≠ 0 := by omega
  have hlog : Nat.log 2 (limbs mant) = 112 := (Nat.log_eq_iff (.inl (by decide))).2 ⟨hlow, hhigh⟩
  rw [f128PackParts, if_neg (fun h => hne ((u128IsZero_iff mant).1 h))]
  simp only [packNormalize, u128Clz_eq hne, hlog, Nat.cast_ofNat]
  rw [if_neg (by decide), if_neg (by decide)]

variable {exp : Int}

/-- Below the exponent range one bit more than needed is shifted out. -/
theorem packEncode_subnormal (hhigh : limbs mant < 2 ^ 113) (hexp : exp < -16382) (sign : Bool) :
    biasedExp (packEncode sign exp mant) = 0 ∧
      fraction (packEncode sign exp mant) = limbs mant / 2 ^ (-16382 - exp + 1).toNat := by
  obtain ⟨n, hn⟩ : ∃ n : Nat, -16382 - exp + 1 = (n + 2 : Nat) :=
    ⟨(-16382 - exp + 1).toNat - 2, by omega⟩
  have hdiv : ∀ k, limbs mant / 2 ^ (k + 2) < 2 ^ 112 := by
    intro k
    rw [pow_add, Nat.mul_comm, ← Nat.div_div_eq_div_mul]
    exact lt_of_le_of_lt (Nat.div_le_self _ _) (by omega)
  have hfields : ∀ low : U128, limbs low < 2 ^ 112 →
      biasedExp ⟨low.lo, signWord sign ||| (low.hi &&& fracMask)⟩ = 0 ∧
        fraction ⟨low.lo, signWord sign ||| (low.hi &&& fracMask)⟩ = limbs low := by
    intro low hlow
    have hsmall : low.hi.toNat % 2 ^ 48 = low.hi.toNat := by
      unfold limbs at hlow
      omega
    have hword := toNat_hiWord sign 0 (by decide) low.hi
    have hnone : BitVec.ofInt 64 ((0 : Nat) : Int) <<< 48 = 0#64 := by decide
    rw [hnone, BitVec.or_zero, hsmall] at hword
    obtain ⟨-, hexp, hfrac⟩ := fields_of_hiWord
      (v := ⟨low.lo, signWord sign ||| (low.hi &&& fracMask)⟩) (by decide)
      (by unfold limbs at hlow; omega) hword
    exact ⟨hexp, hfrac⟩
  simp only [packEncode]
  rw [if_pos (by omega), hn, Int.toNat_natCast]
  by_cases hbig : (113 : Int) ≤ (n + 2 : Nat)
  · have hzero : limbs mant / 2 ^ (n + 2) = 0 :=
      Nat.div_eq_of_lt (lt_of_lt_of_le hhigh (Nat.pow_le_pow_right (by decide) (by omega)))
    rw [if_pos hbig, hzero]
    exact ⟨(fields_zero sign).2.1, (fields_zero sign).2.2⟩
  · rw [if_neg hbig, ← limbs_shr]
    exact hfields _ (by rw [limbs_shr]; exact hdiv n)

section Unpacked
variable {v : LrF128}

theorem pack_unpack_normal (h : IsNormal v) :
    f128PackParts (f128Unpack v).sign (f128Unpack v).exp (f128Unpack v).mant = v := by
  have hlow := h.significand_ge
  obtain ⟨mant, hrun, hmant⟩ := f128Unpack_finite h.2 (by omega)
  have hexp : exponent v = biasedExp v - 16383 := by rw [exponent, if_neg h.1]
  have hbiased : biasedExp v < 2 ^ 15 := Nat.mod_lt _ (by decide)
  have hnan := h.2
  have hpos := h.1
  rw [← hmant] at hlow
  obtain ⟨-, hsign', hexp', hsig'⟩ := packEncode_fields hlow
    (hmant ▸ significand_lt v) (by omega) (by omega : exponent v ≤ 16383) (signBit v)
  rw [hrun, f128PackParts_normalized hlow (hmant ▸ significand_lt v)]
  exact eq_of_sizes hsign' hexp' (hsig'.trans hmant)

/-- The bit that is shifted out too many halves the fraction. -/
theorem pack_unpack_subnormal (hexp : biasedExp v = 0) (hfrac : fraction v ≠ 0) :
    fraction (f128PackParts (f128Unpack v).sign (f128Unpack v).exp (f128Unpack v).mant) =
      fraction v / 2 := by
  have hsig : significand v = fraction v := by rw [significand, if_pos hexp]
  have hfin : IsFinite v := by
    rw [IsFinite, hexp]
    decide
  obtain ⟨mant, hrun, hmant⟩ := f128Unpack_finite hfin (by omega)
  rw [hsig] at hmant
  have hlt := fraction_lt v
  have hne : limbs mant ≠ 0 := by omega
  obtain ⟨exp', mant', hnorm, hlow', hhigh', hvalue⟩ := packNormalize_spec hne (exponent v)
  have hmin : exponent v = -16382 := by rw [exponent, if_pos hexp]
  rw [hrun, f128PackParts, if_neg (fun h => hne ((u128IsZero_iff mant).1 h)), hnorm]
  -- the shift to place 112 is undone, and one place more
  rw [hmin, roundTo_mul_zpow (by exact_mod_cast hne), roundTo_natCast_of_lt (by omega)] at hvalue
  have hsmall : exp' < -16382 := by
    by_contra hge
    have hmants : (limbs mant : ℚ) < limbs mant' := by
      have : limbs mant < limbs mant' := by omega
      exact_mod_cast this
    have hscale : (2 : ℚ) ^ (-16382 - 112 : ℤ) ≤ 2 ^ (exp' - 112) :=
      zpow_le_zpow_right₀ (by norm_num) (by omega)
    refine absurd hvalue (ne_of_gt ?_)
    calc (limbs mant : ℚ) * 2 ^ (-16382 - 112 : ℤ)
        < limbs mant' * 2 ^ (-16382 - 112 : ℤ) := mul_lt_mul_of_pos_right hmants (by positivity)
      _ ≤ limbs mant' * 2 ^ (exp' - 112) := mul_le_mul_of_nonneg_left hscale (by positivity)
  obtain ⟨n, hn⟩ : ∃ n : Nat, exp' = -16382 - n := ⟨(-16382 - exp').toNat, by omega⟩
  have hmant' : limbs mant' = limbs mant * 2 ^ n := by
    have hunit : (2 : ℚ) ^ (exp' - 112) ≠ 0 := by positivity
    rw [show (-16382 - 112 : ℤ) = n + (exp' - 112) by omega, zpow_add₀ two_ne_zero, zpow_natCast,
      ← mul_assoc, mul_left_inj' hunit] at hvalue
    exact_mod_cast hvalue
  rw [(packEncode_subnormal hhigh' hsmall _).2, hmant',
    show (-16382 - exp' + 1).toNat = n + 1 by omega, pow_succ,
    Nat.mul_comm, Nat.mul_div_mul_left _ _ (Nat.two_pow_pos n), hmant]

end Unpacked

/-- Packing gives back what was unpacked exactly if there is a hidden bit. -/
theorem pack_unpack_iff (v : LrF128) (hfin : IsFinite v) (hne : toRat v ≠ 0) :
    f128PackParts (f128Unpack v).sign (f128Unpack v).exp (f128Unpack v).mant = v ↔
      biasedExp v ≠ 0 := by
  rw [toRat_ne_zero_iff] at hne
  refine ⟨?_, fun hexp => pack_unpack_normal ⟨hexp, hfin⟩⟩
  intro heq hexp
  rw [significand, if_pos hexp] at hne
  have hhalf := pack_unpack_subnormal hexp hne
  rw [heq] at hhalf
  omega

/-- `1.0`. -/
theorem pack_unpack_iff_one :
    f128PackParts (f128Unpack ⟨0, 0x3FFF000000000000⟩).sign
        (f128Unpack ⟨0, 0x3FFF000000000000⟩).exp (f128Unpack ⟨0, 0x3FFF000000000000⟩).mant =
      ⟨0, 0x3FFF000000000000⟩ ↔ biasedExp ⟨0, 0x3FFF000000000000⟩ ≠ 0 :=
  pack_unpack_iff ⟨0, 0x3FFF000000000000⟩ (by decide) (by rw [toRat_one]; exact one_ne_zero)

/-- The second smallest subnormal number comes back as the smallest one. -/
theorem pack_unpack_two :
    IsFinite ⟨2, 0⟩ ∧ toRat ⟨2, 0⟩ ≠ 0 ∧
      f128PackParts (f128Unpack ⟨2, 0⟩).sign (f128Unpack ⟨2, 0⟩).exp (f128Unpack ⟨2, 0⟩).mant ≠
        ⟨2, 0⟩ := by
  refine ⟨by decide, (toRat_ne_zero_iff _).2 (by decide), ?_⟩
  have hrun : f128PackParts (f128Unpack ⟨2, 0⟩).sign (f128Unpack ⟨2, 0⟩).exp
      (f128Unpack ⟨2, 0⟩).mant = ⟨1, 0⟩ := by decide +kernel
  rw [hrun]
  decide

/-- A mantissa with its leading bit at place 112 is packed exactly. -/
theorem pack_fields (hlow : 2 ^ 112 ≤ limbs mant) (hhigh : limbs mant < 2 ^ 113) (hmin : -16382 ≤ exp) (hmax : exp ≤ 16383) (sign : Bool) :
    IsFinite (f128PackParts sign exp mant) ∧ signBit (f128PackParts sign exp mant) = sign ∧
      exponent (f128PackParts sign exp mant) = exp ∧
      significand (f128PackParts sign exp mant) = limbs mant := by
  rw [f128PackParts_normalized hlow hhigh]
  exact packEncode_fields hlow hhigh hmin hmax sign

theorem toRat_of_parts {v : LrF128} {sign : Bool} {m : Nat} (hsign : signBit v = sign)
    (hexp : exponent v = exp) (hsig : significand v = m) :
    toRat v = signed sign (m * 2 ^ (exp - 112)) := by
  rw [toRat_eq_signed, magnitude, hsign, hexp, hsig]

/-- A number of at most 113 bits inside the normal range. -/
theorem inNormalRange_signed {x : ℚ} (sign : Bool) (hlow : 2 ^ (-16382 : ℤ) ≤ x)
    (hhigh : x < 2 ^ (16384 : ℤ)) : InNormalRange (signed sign x) := by
  have habs : |signed sign x| = x := by
    have hpos : 0 ≤ x := le_trans (by positivity) hlow
    cases sign
    · exact abs_of_nonneg hpos
    · rw [signed, if_pos rfl, abs_neg, abs_of_nonneg hpos]
  rw [InNormalRange, habs]
  exact ⟨hlow, hhigh⟩

/-- What a widening conversion makes of the fields of a pattern. -/
structure Widened (F : FloatFormat) (bits : Nat) (r : LrF128) : Prop where
  zero : F.expField bits = 0 → F.fracField bits = 0 → r = f128MakeZero (F.signField bits)
  normal : F.expField bits ≠ 0 → ∃ mant,
    limbs mant = (2 ^ F.fracBits + F.fracField bits) * 2 ^ (112 - F.fracBits) ∧
      r = f128PackParts (F.signField bits) (F.expField bits - F.bias) mant
  subnormal : F.expField bits = 0 → F.fracField bits ≠ 0 → ∃ mant,
    limbs mant = F.fracField bits * 2 ^ (112 - F.fracBits) ∧
      r = f128PackParts (F.signField bits) (1 - F.bias - F.fracBits) mant

/-- A format that is narrower than binary128. -/
structure Narrow (F : FloatFormat) : Prop where
  fracPos : 0 < F.fracBits
  fracBits : F.fracBits ≤ 112
  expField : ∀ bits, F.IsFinite bits → (F.expField bits : Int) - F.bias ≤ 16383
  bias : F.bias + 2 * F.fracBits ≤ 16382

section Widening
variable {F : FloatFormat} {bits : Nat} {r : LrF128}

theorem value_eq_signed (F : FloatFormat) (bits : Nat) :
    F.value bits = signed (F.signField bits) (F.size bits) := rfl

/-- A pattern with a hidden bit keeps its fields. -/
theorem Widened.normal_fields (h : Widened F bits r) (hF : Narrow F) (hfin : F.IsFinite bits)
    (hexp : F.expField bits ≠ 0) :
    IsFinite r ∧ signBit r = F.signField bits ∧ exponent r = F.expField bits - F.bias ∧
      significand r = (2 ^ F.fracBits + F.fracField bits) * 2 ^ (112 - F.fracBits) := by
  obtain ⟨mant, hmant, rfl⟩ := h.normal hexp
  have hfrac := fracField_lt (F := F) bits
  have hbits := hF.fracBits
  have hsplit : ∀ k, 2 ^ (F.fracBits + k) * 2 ^ (112 - F.fracBits) = 2 ^ (112 + k) := by
    intro k
    rw [← pow_add]
    congr 1
    omega
  have hlow : 2 ^ 112 ≤ limbs mant := by
    rw [hmant, ← hsplit 0]
    exact Nat.mul_le_mul_right _ (Nat.le_add_right _ _)
  have hhigh : limbs mant < 2 ^ 113 := by
    rw [hmant, ← hsplit 1]
    refine Nat.mul_lt_mul_of_pos_right ?_ (Nat.two_pow_pos _)
    rw [pow_succ]
    omega
  have hmin := hF.bias
  have hmax := hF.expField bits hfin
  rw [← hmant]
  exact pack_fields hlow hhigh (by omega) hmax _

theorem Widened.encodes_normal (h : Widened F bits r) (hF : Narrow F) (hfin : F.IsFinite bits)
    (hexp : F.expField bits ≠ 0) : Encodes r (F.value bits) := by
  obtain ⟨hfinr, hsign, hexpr, hsig⟩ := h.normal_fields hF hfin hexp
  have hbits := hF.fracBits
  refine ⟨hfinr, ?_⟩
  rw [toRat_of_parts hsign hexpr hsig, value_eq_signed, FloatFormat.size, if_neg hexp]
  congr 1
  push_cast
  rw [mul_assoc, ← zpow_natCast (2 : ℚ) (112 - F.fracBits), ← zpow_add₀ two_ne_zero]
  congr 2
  push_cast [hbits]
  ring

/-- A subnormal pattern comes out smaller by the width of the fraction. -/
theorem Widened.encodes_subnormal (h : Widened F bits r) (hF : Narrow F) (hsub : F.Subnormal bits) :
    Encodes r (signed (F.signField bits) (F.size bits * 2 ^ (-(F.fracBits : ℤ)))) := by
  obtain ⟨mant, hmant, rfl⟩ := h.subnormal hsub.1 hsub.2
  have hfrac := fracField_lt (F := F) bits
  have hbits := hF.fracBits
  have hbias := hF.bias
  have hvalue : (limbs mant : ℚ) * 2 ^ (1 - F.bias - F.fracBits - 112) =
      F.size bits * 2 ^ (-(F.fracBits : ℤ)) := by
    rw [FloatFormat.size, if_pos hsub.1, hmant]
    push_cast
    rw [mul_assoc, mul_assoc, ← zpow_natCast (2 : ℚ) (112 - F.fracBits),
      ← zpow_add₀ two_ne_zero, ← zpow_add₀ two_ne_zero]
    congr 2
    push_cast [hbits]
    ring
  have hscale : (0 : ℚ) < 2 ^ (1 - F.bias - F.fracBits - 112) := by positivity
  have hone : 2 ^ (112 - F.fracBits) ≤ limbs mant := by
    rw [hmant]
    exact Nat.le_mul_of_pos_left _ (Nat.pos_of_ne_zero hsub.2)
  have hbound : limbs mant < 2 ^ 112 := by
    rw [hmant, show 112 = F.fracBits + (112 - F.fracBits) by omega, pow_add]
    simpa using Nat.mul_lt_mul_of_pos_right hfrac (Nat.two_pow_pos (112 - F.fracBits))
  have hlow : (2 : ℚ) ^ (-16382 : ℤ) ≤ limbs mant * 2 ^ (1 - F.bias - F.fracBits - 112) := by
    have hexp : (2 : ℚ) ^ ((112 - F.fracBits : Nat) : ℤ) ≤ limbs mant := by
      rw [zpow_natCast]
      exact_mod_cast hone
    calc (2 : ℚ) ^ (-16382 : ℤ)
        ≤ 2 ^ (((112 - F.fracBits : Nat) : ℤ) + (1 - F.bias - F.fracBits - 112)) :=
          zpow_le_zpow_right₀ (by norm_num) (by omega)
      _ = 2 ^ ((112 - F.fracBits : Nat) : ℤ) * 2 ^ (1 - F.bias - F.fracBits - 112) :=
          zpow_add₀ two_ne_zero _ _
      _ ≤ _ := mul_le_mul_of_nonneg_right hexp hscale.le
  have hhigh : (limbs mant : ℚ) * 2 ^ (1 - F.bias - F.fracBits - 112) < 2 ^ (16384 : ℤ) := by
    have hexp : (limbs mant : ℚ) < 2 ^ (112 : ℤ) := by exact_mod_cast hbound
    have hnonneg := FloatFormat.bias_nonneg F
    calc (limbs mant : ℚ) * 2 ^ (1 - F.bias - F.fracBits - 112)
        < 2 ^ (112 : ℤ) * 2 ^ (1 - F.bias - F.fracBits - 112) := mul_lt_mul_of_pos_right hexp hscale
      _ = 2 ^ (112 + (1 - F.bias - F.fracBits - 112)) := (zpow_add₀ two_ne_zero _ _).symm
      _ ≤ 2 ^ (16384 : ℤ) := zpow_le_zpow_right₀ (by norm_num) (by omega)
  rw [← hvalue, encodes_pack_exact (by omega) _ _ (inNormalRange_signed _ hlow hhigh)]

/-- The conversion is exact exactly if the pattern is not subnormal. -/
theorem Widened.encodes_iff (h : Widened F bits r) (hF : Narrow F) (hfin : F.IsFinite bits) :
    Encodes r (F.value bits) ↔ ¬ F.Subnormal bits := by
  constructor
  · intro henc hsub
    have hsmall := (h.encodes_subnormal hF hsub).2
    rw [henc.2, value_eq_signed, signed_inj] at hsmall
    have hpos : F.size bits ≠ 0 := by
      have hfrac : (F.fracField bits : ℚ) ≠ 0 := by exact_mod_cast hsub.2
      rw [FloatFormat.size, if_pos hsub.1]
      positivity
    have hunit : (2 : ℚ) ^ (-(F.fracBits : ℤ)) = 1 := by
      field_simp at hsmall
      exact hsmall.symm
    have hlt : (2 : ℚ) ^ (-(F.fracBits : ℤ)) < 2 ^ (0 : ℤ) := by
      have := hF.fracPos
      exact zpow_lt_zpow_right₀ (by norm_num) (by omega)
    rw [hunit, zpow_zero] at hlt
    exact lt_irrefl _ hlt
  · intro hsub
    by_cases hexp : F.expField bits = 0
    · have hfrac : F.fracField bits = 0 := by
        by_contra hne
        exact hsub ⟨hexp, hne⟩
      have hsize : F.size bits = 0 := by
        rw [FloatFormat.size, if_pos hexp, hfrac, Nat.cast_zero, zero_mul]
      rw [h.zero hexp hfrac, FloatFormat.value, hsize, neg_zero, ite_self]
      exact encodes_makeZero _
    · exact h.encodes_normal hF hfin hexp

end Widening

variable {w : Nat}

theorem toNat_and_lowBits {k : Nat} (x : BitVec w) (hk : k ≤ w) :
    (x &&& BitVec.ofNat w (2 ^ k - 1)).toNat = x.toNat % 2 ^ k := by
  have hlt : 2 ^ k - 1 < 2 ^ w := by
    have h := Nat.pow_le_pow_right (by decide : 0 < 2) hk
    have hpos := Nat.two_pow_pos k
    omega
  rw [BitVec.toNat_and, BitVec.toNat_ofNat, Nat.mod_eq_of_lt hlt, Nat.and_two_pow_sub_one_eq_mod]

theorem f64_expField (d : BitVec 64) :
    ((d >>> 52) &&& 0x7FF#64).toNat = binary64.expField d.toNat := by
  have h := toNat_and_lowBits (k := 11) (d >>> 52) (by decide)
  rw [BitVec.toNat_ushiftRight, Nat.shiftRight_eq_div_pow] at h
  exact h

theorem f64_fracField (d : BitVec 64) :
    (d &&& 0x000FFFFFFFFFFFFF#64).toNat = binary64.fracField d.toNat :=
  toNat_and_lowBits (k := 52) d (by decide)

theorem f32_expField (f : BitVec 32) :
    ((f >>> 23) &&& 0xFF#32).toNat = binary32.expField f.toNat := by
  have h := toNat_and_lowBits (k := 8) (f >>> 23) (by decide)
  rw [BitVec.toNat_ushiftRight, Nat.shiftRight_eq_div_pow] at h
  exact h

theorem f32_fracField (f : BitVec 32) : (f &&& 0x007FFFFF#32).toNat = binary32.fracField f.toNat :=
  toNat_and_lowBits (k := 23) f (by decide)

theorem topBit_eq (x : BitVec (w + 1)) : (x >>> w != 0#(w + 1)) = decide (2 ^ w ≤ x.toNat) := by
  rw [Bool.eq_iff_iff, bne_iff_ne, decide_eq_true_eq, ne_eq, ← BitVec.toNat_inj,
    BitVec.toNat_ushiftRight, Nat.shiftRight_eq_div_pow, BitVec.toNat_ofNat, Nat.zero_mod,
    Nat.div_eq_zero_iff_lt (Nat.two_pow_pos w)]
  omega

theorem f64_signField (d : BitVec 64) :
    (d >>> 63 != 0#64) = binary64.signField d.toNat := topBit_eq d

theorem f32_signField (f : BitVec 32) :
    (f >>> 31 != 0#32) = binary32.signField f.toNat := topBit_eq f

/-- The hidden bit above a fraction. -/
theorem toNat_or_leading {k : Nat} {x : BitVec w} (hk : k < w) (hx : x.toNat < 2 ^ k) :
    (x ||| (1#w <<< k)).toNat = 2 ^ k + x.toNat := by
  have hone : (1#w <<< k).toNat = 1 <<< k := by
    have hpow : 2 ^ k < 2 ^ w := Nat.pow_lt_pow_right (by decide) hk
    rw [BitVec.toNat_shiftLeft, BitVec.toNat_ofNat, Nat.shiftLeft_eq, Nat.shiftLeft_eq,
      Nat.mod_eq_of_lt (Nat.one_lt_two_pow (by omega)), one_mul, Nat.mod_eq_of_lt hpow]
  rw [BitVec.toNat_or, hone, Nat.or_comm, ← Nat.shiftLeft_add_eq_or_of_lt hx, Nat.shiftLeft_eq,
    one_mul]

theorem limbs_fromU64 (x : BitVec 64) : limbs (u128FromU64 x) = x.toNat := by
  simp [limbs, u128FromU64]

/-- A word moved up without loss. -/
theorem limbs_shl_fromU64 {x : BitVec 64} {n : Nat} (h : x.toNat * 2 ^ n < 2 ^ 128) :
    limbs (u128Shl (u128FromU64 x) n) = x.toNat * 2 ^ n := by
  rw [limbs_shl_of_lt (by rwa [limbs_fromU64]), limbs_fromU64]

variable {d : BitVec 64}

theorem f128FromF64_widened (hfin : binary64.IsFinite d.toNat) :
    Widened .binary64 d.toNat (f128FromF64 d) := by
  have hfrac := f64_fracField d
  have hfracLt := fracField_lt (F := .binary64) d.toNat
  have hinf : ¬ ((binary64.expField d.toNat : Int) = 0x7FF) := fun h => hfin (by exact_mod_cast h)
  have hzero : d &&& 0x000FFFFFFFFFFFFF#64 = 0#64 ↔
      binary64.fracField d.toNat = 0 := by
    rw [← hfrac, ← BitVec.toNat_inj]
    rfl
  have hbias : binary64.bias = 1023 := by decide
  unfold f128FromF64
  simp only [f64_signField, f64_expField, hzero, if_neg hinf]
  refine ⟨?_, ?_, ?_⟩
  · intro hexp hf
    rw [if_pos ⟨by rw [hexp]; rfl, hf⟩]
  · intro hexp
    rw [if_neg (fun h => hexp (by exact_mod_cast h.1)), if_pos (by exact_mod_cast hexp), hbias]
    have hword := toNat_or_leading (k := 52) (x := d &&& 0x000FFFFFFFFFFFFF#64) (by decide)
      (by rw [hfrac]; exact hfracLt)
    rw [hfrac] at hword
    refine ⟨_, ?_, rfl⟩
    have hshl := limbs_shl_fromU64 (n := 60)
      (x := (d &&& 0x000FFFFFFFFFFFFF#64) ||| (1#64 <<< 52))
      (by rw [hword]; change _ < 2 ^ 52 at hfracLt; omega)
    rw [hword] at hshl
    exact hshl
  · intro hexp hf
    rw [if_neg (fun h => hf h.2), if_neg (by rw [hexp]; simp), hbias]
    refine ⟨_, ?_, rfl⟩
    have hshl := limbs_shl_fromU64 (n := 60) (x := d &&& 0x000FFFFFFFFFFFFF#64)
      (by rw [hfrac]; change _ < 2 ^ 52 at hfracLt; omega)
    rw [hfrac] at hshl
    exact hshl

theorem f128FromF32_widened {f : BitVec 32} (hfin : binary32.IsFinite f.toNat) :
    Widened .binary32 f.toNat (f128FromF32 f) := by
  have hfrac := f32_fracField f
  have hfracLt := fracField_lt (F := .binary32) f.toNat
  have hinf : ¬ ((binary32.expField f.toNat : Int) = 0xFF) := fun h => hfin (by exact_mod_cast h)
  have hzero : f &&& 0x007FFFFF#32 = 0#32 ↔ binary32.fracField f.toNat = 0 := by
    rw [← hfrac, ← BitVec.toNat_inj]
    rfl
  have hbias : binary32.bias = 127 := by decide
  have hwiden : ∀ x : BitVec 32, (x.setWidth 64).toNat = x.toNat := fun x => by
    rw [BitVec.toNat_setWidth]
    exact Nat.mod_eq_of_lt (lt_trans x.isLt (by decide))
  unfold f128FromF32
  simp only [f32_signField, f32_expField, hzero, if_neg hinf]
  refine ⟨?_, ?_, ?_⟩
  · intro hexp hf
    rw [if_pos ⟨by rw [hexp]; rfl, hf⟩]
  · intro hexp
    rw [if_neg (fun h => hexp (by exact_mod_cast h.1)), if_pos (by exact_mod_cast hexp), hbias]
    have hword := toNat_or_leading (k := 23) (x := f &&& 0x007FFFFF#32) (by decide)
      (by rw [hfrac]; exact hfracLt)
    rw [hfrac] at hword
    refine ⟨_, ?_, rfl⟩
    have hshl := limbs_shl_fromU64 (n := 89)
      (x := ((f &&& 0x007FFFFF#32) ||| (1#32 <<< 23)).setWidth 64)
      (by rw [hwiden, hword]; change _ < 2 ^ 23 at hfracLt; omega)
    rw [hwiden, hword] at hshl
    exact hshl
  · intro hexp hf
    rw [if_neg (fun h => hf h.2), if_neg (by rw [hexp]; simp), hbias]
    refine ⟨_, ?_, rfl⟩
    have hshl := limbs_shl_fromU64 (n := 89) (x := (f &&& 0x007FFFFF#32).setWidth 64)
      (by rw [hwiden, hfrac]; change _ < 2 ^ 23 at hfracLt; omega)
    rw [hwiden, hfrac] at hshl
    exact hshl

theorem narrow_binary64 : Narrow .binary64 where
  fracPos := by decide
  fracBits := by decide
  expField := by
    intro bits _
    have h := expField_lt (F := .binary64) bits
    have hbias : binary64.bias = 1023 := by decide
    have hwidth : 2 ^ binary64.expBits = 2048 := by decide
    omega
  bias := by decide

theorem narrow_binary32 : Narrow .binary32 where
  fracPos := by decide
  fracBits := by decide
  expField := by
    intro bits _
    have h := expField_lt (F := .binary32) bits
    have hbias : binary32.bias = 127 := by decide
    have hwidth : 2 ^ binary32.expBits = 256 := by decide
    omega
  bias := by decide

theorem lo_toNat (a : U128) : a.lo.toNat = limbs a % 2 ^ 64 := by
  have := a.lo.isLt
  unfold limbs
  omega

/-- A pattern from its fields. -/
theorem f64_of_fields {dmant : BitVec 64} (hfrac : dmant.toNat = binary64.fracField d.toNat) :
    signWord (binary64.signField d.toNat) |||
      (BitVec.ofInt 64 (binary64.expField d.toNat) <<< 52) ||| dmant = d := by
  have hparts := FloatFormat.parts_eq (F := .binary64) d.isLt
  have hexp := expField_lt (F := .binary64) d.toNat
  have hlt := fracField_lt (F := .binary64) d.toNat
  refine BitVec.eq_of_toNat_eq ?_
  rw [toNat_fields _ (by decide) hexp (by rw [hfrac]; exact hlt), hfrac]
  exact hparts

theorem f128ToF64_normal {r : LrF128} (hfin : binary64.IsFinite d.toNat)
    (hexp : binary64.expField d.toNat ≠ 0) (hr : Widened .binary64 d.toNat r) :
    f128ToF64 r = d := by
  obtain ⟨hfinr, hsign, hexpr, hsig⟩ := hr.normal_fields narrow_binary64 hfin hexp
  have hbias : binary64.bias = 1023 := by decide
  have hlt := fracField_lt (F := .binary64) d.toNat
  have hexpLt := expField_lt (F := .binary64) d.toNat
  have hmax : binary64.expField d.toNat ≠ 2047 := hfin
  have hwidth : 2 ^ binary64.expBits = 2048 := by decide
  have hplaces : 2 ^ binary64.fracBits = 2 ^ 52 := rfl
  have hshift : 2 ^ (112 - binary64.fracBits) = 2 ^ 60 := rfl
  rw [hplaces, hshift] at hsig
  rw [hplaces] at hlt
  rw [hwidth] at hexpLt
  obtain ⟨mant, hrun, hmant⟩ := f128Unpack_finite hfinr (by rw [hsig]; positivity)
  rw [hsig] at hmant
  have hdexp : exponent r + 1023 = binary64.expField d.toNat := by
    rw [hexpr, hbias]
    ring
  simp only [f128ToF64, hrun, Bool.false_eq_true, if_false, hdexp, hsign]
  rw [if_neg (by omega), if_neg (by omega)]
  -- no bit is below the cut
  have hdmant : ((u128Shr mant (112 - 52)).lo &&& 0x000FFFFFFFFFFFFF#64).toNat =
      binary64.fracField d.toNat := by
    have hshr : limbs (u128Shr mant (112 - 52)) =
        2 ^ 52 + binary64.fracField d.toNat := by
      have h := limbs_shr mant 60
      rw [hmant, Nat.mul_div_cancel _ (Nat.two_pow_pos 60)] at h
      exact h
    refine (toNat_and_lowBits (k := 52) (u128Shr mant (112 - 52)).lo (by decide)).trans ?_
    rw [lo_toNat, hshr]
    omega
  have hround : u128Bit mant ((112 - 52 : Int) - 1) = false := by
    have h := u128Bit_eq mant 59
    rw [hmant, Nat.testBit_mul_two_pow] at h
    exact h
  have htop : ¬ ((u128Shr mant (112 - 52)).lo &&& 0x000FFFFFFFFFFFFF#64) >>> 52 ≠ 0#64 := by
    rw [not_not, ← BitVec.toNat_inj, BitVec.toNat_ushiftRight, hdmant, Nat.shiftRight_eq_div_pow,
      Nat.div_eq_of_lt hlt]
    rfl
  simp only [toF64Normal, hround, Bool.false_and, Bool.false_eq_true, if_false, if_neg htop]
  exact f64_of_fields hdmant

theorem f128ToF64_zero (hexp : binary64.expField d.toNat = 0)
    (hfrac : binary64.fracField d.toNat = 0) :
    f128ToF64 (f128MakeZero (binary64.signField d.toNat)) = d := by
  obtain ⟨hsign, hbiased, hfraction⟩ := fields_zero (binary64.signField d.toNat)
  have hsig : significand (f128MakeZero (binary64.signField d.toNat)) = 0 := by
    rw [f128MakeZero, significand, hbiased, if_pos rfl, hfraction]
  have hword := @f64_of_fields d 0#64 hfrac.symm
  rw [hexp] at hword
  simp only [f128ToF64, f128Unpack_zero hsig, Bool.false_eq_true, if_false, if_true]
  rw [f128MakeZero, hsign]
  simpa using hword

/-- A double is widened exactly and comes back, and a float is widened exactly, exactly
if it is not subnormal. -/
theorem widening_exact_iff (d : BitVec 64) (f : BitVec 32)
    (hd : binary64.IsFinite d.toNat) (hf : binary32.IsFinite f.toNat) :
    (Encodes (f128FromF64 d) (binary64.value d.toNat) ∧
        f128ToF64 (f128FromF64 d) = d ↔ ¬ binary64.Subnormal d.toNat) ∧
      (Encodes (f128FromF32 f) (binary32.value f.toNat) ↔ ¬ binary32.Subnormal f.toNat) := by
  refine ⟨?_, (f128FromF32_widened hf).encodes_iff narrow_binary32 hf⟩
  have hwiden := f128FromF64_widened hd
  rw [hwiden.encodes_iff narrow_binary64 hd, and_iff_left_iff_imp]
  intro hsub
  by_cases hexp : binary64.expField d.toNat = 0
  · have hfrac : binary64.fracField d.toNat = 0 := by
      by_contra hne
      exact hsub ⟨hexp, hne⟩
    rw [hwiden.zero hexp hfrac]
    exact f128ToF64_zero hexp hfrac
  · exact f128ToF64_normal hd hexp hwiden

/-- `1.0` and `1.0f`. -/
theorem widening_exact_iff_one :
    f128ToF64 (f128FromF64 0x3FF0000000000000) = 0x3FF0000000000000 ∧
      Encodes (f128FromF32 0x3F800000) (binary32.value (0x3F800000 : BitVec 32).toNat) := by
  obtain ⟨hdouble, hfloat⟩ :=
    widening_exact_iff 0x3FF0000000000000 0x3F800000 (by decide) (by decide)
  exact ⟨(hdouble.2 (by decide)).2, hfloat.2 (by decide)⟩

/-- The least double above zero, `2 ^ -1074`, is widened to `2 ^ -1126` and comes back
as zero. -/
theorem widening_subnormal :
    binary64.IsFinite (1 : BitVec 64).toNat ∧
      binary64.value (1 : BitVec 64).toNat = 2 ^ (-1074 : ℤ) ∧
      ¬ Encodes (f128FromF64 1) (binary64.value (1 : BitVec 64).toNat) ∧
      f128ToF64 (f128FromF64 1) ≠ 1 := by
  have hfin : binary64.IsFinite (1 : BitVec 64).toNat := by decide
  refine ⟨hfin, ?_, ?_, by decide +kernel⟩
  · have hsign : binary64.signField (1 : BitVec 64).toNat = false := by decide
    have hexp : binary64.expField (1 : BitVec 64).toNat = 0 := by decide
    have hfrac : binary64.fracField (1 : BitVec 64).toNat = 1 := by decide
    have hbias : binary64.bias = 1023 := by decide
    have hplaces : binary64.fracBits = 52 := rfl
    rw [FloatFormat.value, hsign, if_neg Bool.false_ne_true, FloatFormat.size, if_pos hexp, hfrac,
      hbias, hplaces]
    norm_num
  · rw [(f128FromF64_widened hfin).encodes_iff narrow_binary64 hfin]
    decide

end Liric.Guarantees.Float128
