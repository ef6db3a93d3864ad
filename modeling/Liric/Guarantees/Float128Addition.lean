import Liric.Guarantees.Float128Pack

/-!
# Addition and subtraction of binary128 numbers

The smaller operand is aligned with a plain right shift, so the bits that leave
it are lost before the sum or difference is formed. Operands of one sign are
added by truncation, operands of opposite sign are subtracted rounding away from
zero. `f128_addition_correct_iff` says for which operands that is the correctly
rounded result.
-/
namespace Liric.Guarantees.Float128
open Source.Float128 Lib
open Nat (two_pow_pos log sub_le cast_zero)

variable {M m s : Nat} {pa pb : F128Parts} {a b v : LrF128}

/-! ## When the lost bits do not matter

`M` is the significand of the larger operand, `m` that of the smaller one and
`s` the difference of the exponents. -/

/-- The exact sum, cut off after 113 bits, is the rounded sum. -/
def SumRounds (M m s : Nat) : Prop := TruncationRounds 113 (M * 2 ^ s + m)

instance (M m s : Nat) : Decidable (SumRounds M m s) := inferInstanceAs (Decidable (TruncationRounds _ _))

/-- The bits shifted out of the smaller operand are zero, or at most half of the
last place of the difference: a quarter where the difference loses a bit. -/
def DifferenceRounds (M m s : Nat) : Prop :=
  m % 2 ^ s = 0 ∨
  2 ^ 112 < M - m / 2 ^ s ∧
    (2 * (m % 2 ^ s) < 2 ^ s ∨ 2 * (m % 2 ^ s) = 2 ^ s ∧ (M - m / 2 ^ s) % 2 = 0) ∨
  M - m / 2 ^ s ≤ 2 ^ 112 ∧ 4 * (m % 2 ^ s) ≤ 2 ^ s

instance (M m s : Nat) : Decidable (DifferenceRounds M m s) :=
  inferInstanceAs (Decidable (_ ∨ _ ∨ _))

/-- The value of the truncated sum. -/
def truncatedSum (M m s : Nat) : Nat :=
  if M + m / 2 ^ s < 2 ^ 113 then M + m / 2 ^ s else (M + m / 2 ^ s) / 2 * 2

theorem aligned_sum (M m s : Nat) : (M * 2 ^ s + m) / 2 ^ s = M + m / 2 ^ s := by
  rw [Nat.add_comm, Nat.add_mul_div_right _ _ (two_pow_pos s), Nat.add_comm]

/-- The code's sum is the exact sum cut off after 113 bits. -/
theorem truncatedSum_eq (hM : M < 2 ^ 113) (hm : m < 2 ^ 113) (hlead : 2 ^ 112 ≤ M ∨ s = 0) :
    truncatedSum M m s * 2 ^ s =
      (M * 2 ^ s + m) / 2 ^ excessBits 113 (M * 2 ^ s + m) * 2 ^ excessBits 113 (M * 2 ^ s + m) := by
  have hquot := aligned_sum M m s
  have hsmall : m / 2 ^ s < 2 ^ 113 := lt_of_le_of_lt (Nat.div_le_self m (2 ^ s)) hm
  unfold truncatedSum
  split
  · rename_i hlt
    by_cases hs : s = 0
    · subst hs
      have hexact : excessBits 113 (M * 2 ^ 0 + m) = 0 := by
        rw [pow_zero, Nat.div_one] at hlt
        have hlog : log 2 (M * 2 ^ 0 + m) < 113 := by
          rcases Nat.eq_zero_or_pos (M * 2 ^ 0 + m) with hz | hz
          · rw [hz]
            decide
          · exact Nat.log_lt_of_lt_pow hz.ne' (by simpa using hlt)
        unfold excessBits
        omega
      rw [hexact, pow_zero]
      omega
    · have hlead' : 2 ^ 112 ≤ M := hlead.resolve_right hs
      have hlog : log 2 (M * 2 ^ s + m) = 112 + s := by
        refine Nat.log_eq_of_pow_le_of_lt_pow ?_ ?_
        · rw [pow_add]
          exact le_trans (Nat.mul_le_mul_right _ hlead') (Nat.le_add_right _ _)
        · rw [show 112 + s + 1 = 113 + s by omega, pow_add, ← Nat.div_lt_iff_lt_mul
            (two_pow_pos s), hquot]
          exact hlt
      have hbits : excessBits 113 (M * 2 ^ s + m) = s := by unfold excessBits; omega
      rw [hbits, hquot]
  · rename_i hge
    have hlog : log 2 (M * 2 ^ s + m) = 113 + s := by
      refine Nat.log_eq_of_pow_le_of_lt_pow ?_ ?_
      · rw [pow_add, ← Nat.le_div_iff_mul_le (two_pow_pos s), hquot]
        omega
      · rw [show 113 + s + 1 = 114 + s by omega, pow_add, ← Nat.div_lt_iff_lt_mul
          (two_pow_pos s), hquot]
        omega
    have hbits : excessBits 113 (M * 2 ^ s + m) = s + 1 := by unfold excessBits; omega
    rw [hbits, pow_succ, ← Nat.div_div_eq_div_mul, hquot]
    ring

theorem roundTo_sum_iff (hM : M < 2 ^ 113) (hm : m < 2 ^ 113) (hlead : 2 ^ 112 ≤ M ∨ s = 0) :
    roundTo 113 ((M * 2 ^ s + m : Nat) : ℚ) = ((truncatedSum M m s * 2 ^ s : Nat) : ℚ) ↔
      SumRounds M m s := by
  rw [truncatedSum_eq hM hm hlead]
  exact roundTo_eq_truncated_iff (by decide) _

/-- The exact difference lies below the code's by the bits shifted out. -/
theorem difference_error (hle : m / 2 ^ s ≤ M) :
    ((M : ℚ) * 2 ^ s - m) = ((M - m / 2 ^ s : Nat) : ℚ) * 2 ^ s - (m % 2 ^ s : Nat) := by
  have hm : (m : ℚ) = (m / 2 ^ s : Nat) * 2 ^ s + (m % 2 ^ s : Nat) := by
    exact_mod_cast (Nat.div_add_mod' m (2 ^ s)).symm
  rw [Nat.cast_sub hle]
  nth_rewrite 1 [hm]
  ring

theorem lastPlace_difference {D d j : Nat} (hlow : 2 ^ j < D) (hhigh : D ≤ 2 ^ (j + 1))
    (hpos : 0 < d) (hlt : d < 2 ^ s) :
    lastPlace 113 ((D : ℚ) * 2 ^ s - d) = ((j + s : ℕ) : ℤ) - 112 := by
  have hlowQ : (2 : ℚ) ^ j + 1 ≤ D := by exact_mod_cast hlow
  have hhighQ : (D : ℚ) ≤ 2 ^ (j + 1) := by exact_mod_cast hhigh
  have hposQ : (0 : ℚ) < d := by exact_mod_cast hpos
  have hltQ : (d : ℚ) < 2 ^ s := by exact_mod_cast hlt
  have hunit : (0 : ℚ) < 2 ^ s := by positivity
  rw [lastPlace_of_bounds (k := ((j + s : ℕ) : ℤ))]
  · norm_num
  · have hscaled : ((2 : ℚ) ^ j + 1) * 2 ^ s ≤ D * 2 ^ s :=
      mul_le_mul_of_nonneg_right hlowQ hunit.le
    rw [zpow_natCast, pow_add]
    linarith
  · have hscaled : (D : ℚ) * 2 ^ s ≤ 2 ^ (j + 1) * 2 ^ s :=
      mul_le_mul_of_nonneg_right hhighQ hunit.le
    rw [show ((j + s : ℕ) : ℤ) + 1 = ((j + 1 + s : ℕ) : ℤ) by push_cast; ring, zpow_natCast,
      pow_add _ (j + 1)]
    linarith

theorem roundTo_difference_iff (hM : M < 2 ^ 113) (hm : m < 2 ^ 113) (hlead : 2 ^ 112 ≤ M ∨ s = 0)
    (hle : m / 2 ^ s ≤ M) :
    roundTo 113 ((M : ℚ) * 2 ^ s - m) = ((M - m / 2 ^ s : Nat) : ℚ) * 2 ^ s ↔
      DifferenceRounds M m s := by
  have herror := difference_error hle
  have hmod := Nat.mod_lt m (two_pow_pos s)
  have hDle : M - m / 2 ^ s ≤ M := sub_le _ _
  unfold DifferenceRounds
  by_cases hd : m % 2 ^ s = 0
  · -- nothing was shifted out
    refine iff_of_true ?_ (Or.inl hd)
    rw [herror, hd, cast_zero, sub_zero]
    rcases Nat.eq_zero_or_pos (M - m / 2 ^ s) with hz | hz
    · rw [hz, cast_zero, zero_mul, roundTo_zero]
    · rw [← zpow_natCast, roundTo_mul_zpow (by exact_mod_cast hz.ne'),
        roundTo_natCast_of_lt (by omega)]
  have hs : s ≠ 0 := by
    rintro rfl
    rw [pow_zero] at hmod
    omega
  have hlead' : 2 ^ 112 ≤ M := hlead.resolve_right hs
  have hdist : |((M - m / 2 ^ s : Nat) : ℚ) * 2 ^ s - (m % 2 ^ s : Nat) -
      ((M - m / 2 ^ s : Nat) : ℚ) * 2 ^ s| = (m % 2 ^ s : Nat) := by
    rw [sub_sub_cancel_left, abs_neg, abs_of_nonneg (by positivity)]
  rw [herror]
  rcases lt_or_ge (2 ^ 112) (M - m / 2 ^ s) with hbig | hsmall
  · -- the difference keeps all 113 bits
    have hplace : lastPlace 113 (((M - m / 2 ^ s : Nat) : ℚ) * 2 ^ s - (m % 2 ^ s : Nat)) =
        (s : ℕ) := by
      rw [lastPlace_difference hbig (by omega) (Nat.pos_of_ne_zero hd) hmod]
      push_cast
      ring
    have hiff := roundTo_eq_iff (n := ((M - m / 2 ^ s : Nat) : ℤ)) hplace
    rw [zpow_natCast, Int.cast_natCast, hdist, lt_div_iff₀ two_pos, eq_div_iff two_ne_zero,
      Int.even_coe_nat, Nat.even_iff] at hiff
    rw [hiff]
    have hnat₁ : ((m % 2 ^ s : Nat) : ℚ) * 2 < 2 ^ s ↔ 2 * (m % 2 ^ s) < 2 ^ s := by
      rw [mul_comm]
      norm_cast
    have hnat₂ : ((m % 2 ^ s : Nat) : ℚ) * 2 = 2 ^ s ↔ 2 * (m % 2 ^ s) = 2 ^ s := by
      rw [mul_comm]
      norm_cast
    rw [hnat₁, hnat₂]
    constructor
    · exact fun h => Or.inr (Or.inl ⟨hbig, h⟩)
    · rintro (h | ⟨-, h⟩ | ⟨h, -⟩)
      · exact absurd h hd
      · exact h
      · omega
  · -- the difference loses a bit: its last place is half as large
    rw [or_iff_right hd, or_iff_right (fun h => absurd h.1 (by omega)), and_iff_right hsmall]
    obtain ⟨r, rfl⟩ : ∃ r, s = r + 1 := ⟨s - 1, by omega⟩
    rcases Nat.eq_zero_or_pos r with rfl | hr
    · -- a shift by one place: the difference is exact and the code is off by one half
      have hone : m % 2 ^ (0 + 1) = 1 := by
        rw [zero_add, pow_one] at hd hmod ⊢
        omega
      have hpos : 1 ≤ (M - m / 2 ^ (0 + 1)) * 2 := by
        omega
      have hexact : roundTo 113 (((M - m / 2 ^ (0 + 1) : Nat) : ℚ) * 2 ^ (0 + 1) - (1 : Nat)) =
          ((M - m / 2 ^ (0 + 1) : Nat) : ℚ) * 2 ^ (0 + 1) - (1 : Nat) := by
        have h := roundTo_natCast_of_lt (p := 113) (m := (M - m / 2 ^ (0 + 1)) * 2 - 1) (by omega)
        rw [Nat.cast_sub hpos] at h
        push_cast at h ⊢
        simpa using h
      rw [hone, hexact]
      refine iff_of_false ?_ (by decide)
      norm_num
    · have hquarter : m / 2 ^ (r + 1) < 2 ^ 111 := by
        rw [Nat.div_lt_iff_lt_mul (two_pow_pos _), ← pow_add]
        exact lt_of_lt_of_le hm (Nat.pow_le_pow_right (by decide) (by omega))
      have hlow : 2 ^ 111 < M - m / 2 ^ (r + 1) := by omega
      have hplace := lastPlace_difference hlow hsmall (Nat.pos_of_ne_zero hd) hmod
      rw [show ((111 + (r + 1) : ℕ) : ℤ) - 112 = (r : ℕ) by push_cast; ring] at hplace
      generalize M - m / 2 ^ (r + 1) = D at *
      generalize m % 2 ^ (r + 1) = d at *
      have hdouble : (D : ℚ) * 2 ^ (r + 1) = ((2 * D : Nat) : ℤ) * 2 ^ ((r : ℕ) : ℤ) := by
        push_cast
        rw [zpow_natCast, pow_succ]
        ring
      have hiff := roundTo_eq_iff (n := ((2 * D : Nat) : ℤ)) hplace
      rw [← hdouble, hdist, zpow_natCast, lt_div_iff₀ two_pos, eq_div_iff two_ne_zero] at hiff
      rw [hiff]
      have hnat₁ : (d : ℚ) * 2 < 2 ^ r ↔ d * 2 < 2 ^ r := by norm_cast
      have hnat₂ : (d : ℚ) * 2 = 2 ^ r ↔ d * 2 = 2 ^ r := by norm_cast
      have heven : Even ((2 * D : Nat) : ℤ) := (Int.even_coe_nat _).mpr (even_two_mul D)
      rw [hnat₁, hnat₂, and_iff_left heven, ← le_iff_lt_or_eq, pow_succ]
      omega

theorem limbs_alignMant (mant : U128) (s : Nat) : limbs (alignMant s mant) = limbs mant / 2 ^ s := by
  unfold alignMant
  split
  · exact limbs_shr mant s
  · rename_i hs
    have hle : 2 ^ 128 ≤ 2 ^ s := Nat.pow_le_pow_right (by decide) (by omega)
    exact (Nat.div_eq_of_lt (lt_of_lt_of_le (limbs_lt mant) hle)).symm

/-- A rational with a sign bit. -/
def signed (sign : Bool) (x : ℚ) : ℚ := if sign then -x else x

theorem signed_inj (sign : Bool) {x y : ℚ} : signed sign x = signed sign y ↔ x = y := by
  cases sign <;> simp [signed]

theorem roundTo_signed (sign : Bool) (p : ℕ) (x : ℚ) :
    roundTo p (signed sign x) = signed sign (roundTo p x) := by
  cases sign
  · rfl
  · exact roundTo_neg

theorem toRat_eq_signed (v : LrF128) : toRat v = signed (signBit v) (magnitude v) := rfl

/-- A mantissa of at most 113 bits is packed without rounding. -/
theorem encodes_pack_exact {mant : U128} (hbits : limbs mant < 2 ^ 113) (sign : Bool) (exp : Int)
    {y : ℚ} (hy : InNormalRange y) :
    Encodes (f128PackParts sign exp mant) y ↔ signed sign (limbs mant * 2 ^ (exp - 112)) = y := by
  have hexact : roundTo 113 ((limbs mant : ℚ) * 2 ^ (exp - 112)) =
      limbs mant * 2 ^ (exp - 112) := by
    rcases Nat.eq_zero_or_pos (limbs mant) with hz | hz
    · rw [hz, cast_zero, zero_mul, roundTo_zero]
    · rw [roundTo_mul_zpow (by exact_mod_cast hz.ne'), roundTo_natCast_of_lt hbits]
  rw [f128PackParts_encodes_iff _ _ _ hy, hexact]
  rfl

/-- What `f128_add_same_sign` packs. -/
theorem f128AddSameSign_eq (hexp : pa.exp = pb.exp + s) (hM : limbs pa.mant < 2 ^ 113)
    (hm : limbs pb.mant < 2 ^ 113) :
    ∃ exp mant, f128AddSameSign pa pb = f128PackParts pa.sign exp mant ∧ limbs mant < 2 ^ 113 ∧
      (limbs mant : ℚ) * 2 ^ (exp - 112) =
        truncatedSum (limbs pa.mant) (limbs pb.mant) s * 2 ^ (pa.exp - 112) := by
  have hshift : pa.exp - pb.exp = (s : Nat) := by omega
  have hsmall : limbs pb.mant / 2 ^ s ≤ limbs pb.mant := Nat.div_le_self _ _
  have hsum : limbs (u128Add pa.mant (alignMant s pb.mant)) =
      limbs pa.mant + limbs pb.mant / 2 ^ s := by
    rw [limbs_add, limbs_alignMant]
    exact Nat.mod_eq_of_lt (by omega)
  have hcarry : limbs (u128Shr (u128Add pa.mant (alignMant s pb.mant)) 113) =
      (limbs pa.mant + limbs pb.mant / 2 ^ s) / 2 ^ 113 := by
    rw [← hsum]
    exact limbs_shr _ 113
  have hhalf : limbs (u128Shr (u128Add pa.mant (alignMant s pb.mant)) 1) =
      (limbs pa.mant + limbs pb.mant / 2 ^ s) / 2 := by
    have h := limbs_shr (u128Add pa.mant (alignMant s pb.mant)) 1
    rwa [hsum, pow_one] at h
  simp only [f128AddSameSign, hshift, truncatedSum]
  by_cases hlt : limbs pa.mant + limbs pb.mant / 2 ^ s < 2 ^ 113
  · have hnot : ¬ (!u128IsZero (u128Shr (u128Add pa.mant (alignMant s pb.mant)) 113)) = true := by
      rw [Bool.not_eq_true', Bool.not_eq_false, u128IsZero_iff, hcarry]
      exact Nat.div_eq_of_lt hlt
    rw [if_neg hnot, if_pos hlt]
    exact ⟨_, _, rfl, by rw [hsum]; exact hlt, by rw [hsum]⟩
  · have hyes : (!u128IsZero (u128Shr (u128Add pa.mant (alignMant s pb.mant)) 113)) = true := by
      rw [Bool.not_eq_true', ← Bool.not_eq_true, u128IsZero_iff, hcarry]
      omega
    rw [if_pos hyes, if_neg hlt]
    refine ⟨_, _, rfl, by rw [hhalf]; omega, ?_⟩
    rw [hhalf, show pa.exp + 1 - 112 = 1 + (pa.exp - 112) by ring, zpow_add₀ two_ne_zero, zpow_one]
    push_cast
    ring

/-- What `f128_sub_mag` packs. -/
theorem f128SubMag_eq (hexp : pa.exp = pb.exp + s) (hM : limbs pa.mant < 2 ^ 113)
    (hle : limbs pb.mant / 2 ^ s ≤ limbs pa.mant) (sign : Bool) :
    ∃ mant, f128SubMag pa pb sign = f128PackParts sign pa.exp mant ∧ limbs mant < 2 ^ 113 ∧
      limbs mant = limbs pa.mant - limbs pb.mant / 2 ^ s := by
  have hshift : pa.exp - pb.exp = (s : Nat) := by omega
  have hdiff : limbs (u128Sub pa.mant (alignMant s pb.mant)) =
      limbs pa.mant - limbs pb.mant / 2 ^ s := by
    rw [limbs_sub _ _ (by rw [limbs_alignMant]; exact hle), limbs_alignMant]
  refine ⟨u128Sub pa.mant (alignMant s pb.mant), ?_, ?_, hdiff⟩
  · simp only [f128SubMag, hshift]
  · rw [hdiff]
    exact lt_of_le_of_lt (sub_le _ _) hM

/-- The operands after sorting: the larger one is normal, or both have the least
exponent and it has the larger significand. -/
structure Sorted (pa pb : F128Parts) (s : Nat) : Prop where
  exp_eq : pa.exp = pb.exp + s
  bits_a : limbs pa.mant < 2 ^ 113
  bits_b : limbs pb.mant < 2 ^ 113
  leading : 2 ^ 112 ≤ limbs pa.mant ∨ s = 0
  larger : s = 0 → limbs pb.mant ≤ limbs pa.mant

theorem Sorted.aligned_le (h : Sorted pa pb s) : limbs pb.mant / 2 ^ s ≤ limbs pa.mant := by
  by_cases hs : s = 0
  · rw [hs, pow_zero, Nat.div_one]
    exact h.larger hs
  · have hlead := h.leading.resolve_right hs
    have hbits := h.bits_b
    have hhalf : limbs pb.mant / 2 ^ s ≤ limbs pb.mant / 2 :=
      Nat.div_le_div_left (Nat.le_self_pow hs 2) (by decide)
    omega

/-- The exact value of unpacked parts. -/
def partsRat (p : F128Parts) : ℚ := signed p.sign (limbs p.mant * 2 ^ (p.exp - 112))

theorem sorted_sum (h : Sorted pa pb s) :
    partsRat pa + partsRat pb =
      if pa.sign = pb.sign then
        signed pa.sign (((limbs pa.mant * 2 ^ s + limbs pb.mant : Nat) : ℚ) * 2 ^ (pb.exp - 112))
      else
        signed pa.sign (((limbs pa.mant : ℚ) * 2 ^ s - limbs pb.mant) * 2 ^ (pb.exp - 112)) := by
  unfold partsRat
  rw [h.exp_eq, show pb.exp + (s : Int) - 112 = (s : Nat) + (pb.exp - 112) by ring,
    zpow_add₀ two_ne_zero, zpow_natCast]
  cases hsa : pa.sign <;> cases hsb : pb.sign <;> simp [signed] <;> ring

def SortedRounds (pa pb : F128Parts) (s : Nat) : Prop :=
  if pa.sign = pb.sign then SumRounds (limbs pa.mant) (limbs pb.mant) s
  else DifferenceRounds (limbs pa.mant) (limbs pb.mant) s

/-- Addition of sorted operands that do not cancel. -/
theorem f128AddSorted_encodes_iff (h : Sorted pa pb s) (hne : partsRat pa + partsRat pb ≠ 0)
    (hnormal : InNormalRange (roundTo 113 (partsRat pa + partsRat pb))) :
    Encodes (f128AddSorted pa pb) (roundTo 113 (partsRat pa + partsRat pb)) ↔
      SortedRounds pa pb s := by
  have hunit : (2 : ℚ) ^ (pb.exp - 112) ≠ 0 := by positivity
  have hscale : ∀ x : ℚ, x * 2 ^ (pa.exp - 112) = x * 2 ^ s * 2 ^ (pb.exp - 112) := by
    intro x
    rw [h.exp_eq, show pb.exp + (s : Int) - 112 = (s : Nat) + (pb.exp - 112) by ring,
      zpow_add₀ two_ne_zero, zpow_natCast, mul_assoc]
  have hsum := sorted_sum h
  unfold SortedRounds f128AddSorted
  by_cases hsign : pa.sign = pb.sign
  · rw [if_pos hsign] at hsum ⊢
    rw [if_pos hsign]
    obtain ⟨exp, mant, hrun, hbits, hvalue⟩ := f128AddSameSign_eq h.exp_eq h.bits_a h.bits_b
    have hX : ((limbs pa.mant * 2 ^ s + limbs pb.mant : Nat) : ℚ) ≠ 0 := by
      intro hzero
      rw [hsum, hzero, zero_mul] at hne
      exact hne (by cases pa.sign <;> simp [signed])
    rw [hrun, encodes_pack_exact hbits _ _ hnormal, hvalue, hsum, roundTo_signed, signed_inj,
      roundTo_mul_zpow hX, hscale, mul_left_inj' hunit,
      ← roundTo_sum_iff h.bits_a h.bits_b h.leading, eq_comm]
    push_cast
    rfl
  · rw [if_neg hsign] at hsum ⊢
    rw [if_neg hsign]
    have hX : (limbs pa.mant : ℚ) * 2 ^ s - limbs pb.mant ≠ 0 := by
      intro hzero
      rw [hsum, hzero, zero_mul] at hne
      exact hne (by cases pa.sign <;> simp [signed])
    have hdiff : ¬ (u128Eq pa.mant pb.mant = true ∧ pa.exp = pb.exp) := by
      rintro ⟨hmant, hexp⟩
      rw [u128Eq_iff] at hmant
      have hs : s = 0 := by
        have := h.exp_eq
        omega
      rw [hmant, hs, pow_zero, mul_one, sub_self] at hX
      exact hX rfl
    rw [if_neg hdiff]
    obtain ⟨mant, hrun, hbits, hvalue⟩ := f128SubMag_eq h.exp_eq h.bits_a h.aligned_le pa.sign
    rw [hrun, encodes_pack_exact hbits _ _ hnormal, hvalue, hsum, roundTo_signed, signed_inj,
      roundTo_mul_zpow hX, hscale, mul_left_inj' hunit,
      ← roundTo_difference_iff h.bits_a h.bits_b h.leading h.aligned_le, eq_comm]

/-- `b` is the larger operand in the order `f128_add` sorts by. -/
def MagnitudeLt (a b : LrF128) : Prop :=
  exponent a < exponent b ∨ exponent a = exponent b ∧ significand a < significand b

instance (a b : LrF128) : Decidable (MagnitudeLt a b) := inferInstanceAs (Decidable (_ ∨ _))

/-- `AdditionRounds` for operands with the larger magnitude first. -/
def AdditionRoundsSorted (a b : LrF128) : Prop :=
  if signBit a = signBit b then
    SumRounds (significand a) (significand b) (exponent a - exponent b).toNat
  else DifferenceRounds (significand a) (significand b) (exponent a - exponent b).toNat

/-- The operands whose sum `f128_add` rounds correctly. -/
def AdditionRounds (a b : LrF128) : Prop :=
  if MagnitudeLt a b then AdditionRoundsSorted b a else AdditionRoundsSorted a b

instance (a b : LrF128) : Decidable (AdditionRoundsSorted a b) := by
  unfold AdditionRoundsSorted
  infer_instance

instance (a b : LrF128) : Decidable (AdditionRounds a b) := by
  unfold AdditionRounds
  infer_instance

theorem sorted_of_not_lt {mantA mantB : U128} (hA : limbs mantA = significand a)
    (hB : limbs mantB = significand b) (h : ¬ MagnitudeLt a b) :
    Sorted { sign := signBit a, exp := exponent a, mant := mantA }
      { sign := signBit b, exp := exponent b, mant := mantB } (exponent a - exponent b).toNat := by
  rw [MagnitudeLt, not_or, not_and] at h
  have hmin := neg16382_le_exponent b
  refine ⟨by simp only; omega, ?_, ?_, ?_, ?_⟩
  · exact hA ▸ significand_lt a
  · exact hB ▸ significand_lt b
  · rw [hA]
    by_cases hlead : 2 ^ 112 ≤ significand a
    · exact Or.inl hlead
    · have hexp := exponent_of_significand_lt (not_le.mp hlead)
      exact Or.inr (by omega)
  · intro hs
    simp only [hA, hB]
    have := h.2 (by omega)
    omega

theorem partsRat_unpacked {mant : U128} (hmant : limbs mant = significand v) :
    partsRat { sign := signBit v, exp := exponent v, mant := mant } = toRat v := by
  rw [partsRat, toRat_eq_signed, magnitude, hmant]

theorem sortedRounds_iff {mantA mantB : U128} (hA : limbs mantA = significand a)
    (hB : limbs mantB = significand b) :
    SortedRounds { sign := signBit a, exp := exponent a, mant := mantA }
      { sign := signBit b, exp := exponent b, mant := mantB } (exponent a - exponent b).toNat ↔
      AdditionRoundsSorted a b := by
  simp only [SortedRounds, AdditionRoundsSorted, hA, hB]

/-- Nothing is lost when the smaller operand is zero. -/
theorem additionRoundsSorted_zero (hb : significand b = 0) : AdditionRoundsSorted a b := by
  unfold AdditionRoundsSorted
  split
  · rw [SumRounds, hb, Nat.add_zero]
    have hbits : excessBits 113 (significand a * 2 ^ (exponent a - exponent b).toNat) ≤
        (exponent a - exponent b).toNat := by
      rcases Nat.eq_zero_or_pos (significand a) with hz | hz
      · simp [hz, excessBits]
      · have hlog : log 2 (significand a * 2 ^ (exponent a - exponent b).toNat) <
            113 + (exponent a - exponent b).toNat := by
          refine Nat.log_lt_of_lt_pow (Nat.mul_ne_zero hz.ne' (two_pow_pos _).ne') ?_
          rw [pow_add]
          exact Nat.mul_lt_mul_of_pos_right (significand_lt a) (two_pow_pos _)
        unfold excessBits
        omega
    have hmod : significand a * 2 ^ (exponent a - exponent b).toNat %
        2 ^ excessBits 113 (significand a * 2 ^ (exponent a - exponent b).toNat) = 0 :=
      Nat.mod_eq_zero_of_dvd (Dvd.dvd.mul_left (Nat.pow_dvd_pow 2 hbits) _)
    left
    rw [hmod, Nat.mul_zero]
    exact two_pow_pos _
  · exact Or.inl (by rw [hb, Nat.zero_mod])

theorem roundTo_toRat (v : LrF128) : roundTo 113 (toRat v) = toRat v := by
  rw [toRat_eq_signed, roundTo_signed, signed_inj, magnitude]
  rcases Nat.eq_zero_or_pos (significand v) with hz | hz
  · rw [hz, cast_zero, zero_mul, roundTo_zero]
  · rw [roundTo_mul_zpow (by exact_mod_cast hz.ne'), roundTo_natCast_of_lt (significand_lt v)]

theorem toRat_of_significand_zero (h : significand v = 0) : toRat v = 0 := by
  by_contra hne
  exact (toRat_ne_zero_iff v).mp hne h

theorem encodes_makeZero (sign : Bool) : Encodes (f128MakeZero sign) 0 := by
  obtain ⟨-, hexp, hfrac⟩ := fields_zero sign
  refine ⟨?_, toRat_of_significand_zero ?_⟩
  · rw [IsFinite, f128MakeZero, hexp]
    decide
  · rw [significand, f128MakeZero, hexp, if_pos rfl, hfrac]

/-- `f128_add` on two non-zero finite numbers. -/
theorem f128Add_nonzero (hfa : IsFinite a) (hfb : IsFinite b) (ha : significand a ≠ 0)
    (hb : significand b ≠ 0) :
    ∃ mantA mantB, limbs mantA = significand a ∧ limbs mantB = significand b ∧
      f128Add a b = if MagnitudeLt a b then
        f128AddSorted { sign := signBit b, exp := exponent b, mant := mantB }
          { sign := signBit a, exp := exponent a, mant := mantA }
      else f128AddSorted { sign := signBit a, exp := exponent a, mant := mantA }
          { sign := signBit b, exp := exponent b, mant := mantB } := by
  obtain ⟨mantA, hunpackA, hmantA⟩ := f128Unpack_finite hfa ha
  obtain ⟨mantB, hunpackB, hmantB⟩ := f128Unpack_finite hfb hb
  refine ⟨mantA, mantB, hmantA, hmantB, ?_⟩
  have hcond : (exponent a < exponent b ∨ exponent a = exponent b ∧
      u128Lt mantA mantB = true) ↔ MagnitudeLt a b := by
    rw [u128Lt_iff, hmantA, hmantB, MagnitudeLt]
  simp only [f128Add, hunpackA, hunpackB, Bool.false_eq_true, if_false, false_and, hcond]

theorem f128Add_zero_left (ha : significand a = 0) (hfb : IsFinite b) :
    f128Add a b = if significand b = 0 then f128MakeZero (signBit a && signBit b) else b := by
  have hunpackA := f128Unpack_zero ha
  by_cases hb : significand b = 0
  · have hunpackB := f128Unpack_zero hb
    simp [f128Add, hunpackA, hunpackB, hb]
  · obtain ⟨mantB, hunpackB, -⟩ := f128Unpack_finite hfb hb
    simp [f128Add, hunpackA, hunpackB, hb]

theorem f128Add_zero_right (hfa : IsFinite a) (ha : significand a ≠ 0) (hb : significand b = 0) :
    f128Add a b = a := by
  have hunpackB := f128Unpack_zero hb
  obtain ⟨mantA, hunpackA, -⟩ := f128Unpack_finite hfa ha
  simp [f128Add, hunpackA, hunpackB]

theorem magnitudeLt_of_zero (ha : significand a = 0) (hb : significand b ≠ 0) :
    MagnitudeLt a b := by
  have hexp := exponent_of_significand_lt (v := a) (by rw [ha]; decide)
  have hmin := neg16382_le_exponent b
  unfold MagnitudeLt
  omega

/-- Addition is commutative on finite numbers. -/
theorem f128Add_comm (hfa : IsFinite a) (hfb : IsFinite b) : f128Add a b = f128Add b a := by
  by_cases ha : significand a = 0
  · by_cases hb : significand b = 0
    · rw [f128Add_zero_left ha hfb, f128Add_zero_left hb hfa, if_pos hb, if_pos ha, Bool.and_comm]
    · rw [f128Add_zero_left ha hfb, if_neg hb, f128Add_zero_right hfb hb ha]
  · by_cases hb : significand b = 0
    · rw [f128Add_zero_right hfa ha hb, f128Add_zero_left hb hfa, if_neg ha]
    · obtain ⟨mantA, mantB, hA, hB, hrun⟩ := f128Add_nonzero hfa hfb ha hb
      obtain ⟨mantB', mantA', hB', hA', hrun'⟩ := f128Add_nonzero hfb hfa hb ha
      obtain rfl : mantA' = mantA := limbs_inj (by omega)
      obtain rfl : mantB' = mantB := limbs_inj (by omega)
      rw [hrun, hrun']
      by_cases hlt : MagnitudeLt a b
      · have hnot : ¬ MagnitudeLt b a := by unfold MagnitudeLt at *; omega
        rw [if_pos hlt, if_neg hnot]
      · by_cases hgt : MagnitudeLt b a
        · rw [if_neg hlt, if_pos hgt]
        · rw [if_neg hlt, if_neg hgt]
          have hexp : exponent a = exponent b := by unfold MagnitudeLt at *; omega
          have hmant : mantA' = mantB' := limbs_inj (by unfold MagnitudeLt at *; omega)
          have heq : u128Eq mantB' mantB' = true := (u128Eq_iff _ _).mpr rfl
          by_cases hsign : signBit a = signBit b
          · rw [hexp, hmant, hsign]
          · simp [f128AddSorted, hexp, hmant, heq, hsign, Ne.symm hsign]

theorem magnitude_lt_of_exponent_lt (h : exponent a < exponent b) : magnitude a < magnitude b := by
  have hlead : 2 ^ 112 ≤ significand b := by
    by_contra hlt
    have hexp := exponent_of_significand_lt (not_le.mp hlt)
    have hmin := neg16382_le_exponent a
    omega
  have hleadQ : (2 : ℚ) ^ 112 ≤ significand b := by exact_mod_cast hlead
  have hbitsQ : (significand a : ℚ) < 2 ^ 113 := by exact_mod_cast significand_lt a
  calc magnitude a < 2 ^ 113 * 2 ^ (exponent a - 112) :=
        mul_lt_mul_of_pos_right hbitsQ (by positivity)
    _ = 2 ^ 112 * 2 ^ (exponent a + 1 - 112) := by
        rw [show exponent a + 1 - 112 = 1 + (exponent a - 112) by ring, zpow_add₀ two_ne_zero]
        ring
    _ ≤ 2 ^ 112 * 2 ^ (exponent b - 112) := by
        refine mul_le_mul_of_nonneg_left ?_ (by positivity)
        exact zpow_le_zpow_right₀ (by norm_num) (by omega)
    _ ≤ magnitude b := mul_le_mul_of_nonneg_right hleadQ (by positivity)

/-- The fields of a number are determined by its size. -/
theorem magnitude_inj (h : magnitude a = magnitude b) :
    exponent a = exponent b ∧ significand a = significand b := by
  have hexp : exponent a = exponent b := by
    rcases lt_trichotomy (exponent a) (exponent b) with hlt | heq | hgt
    · exact absurd h (magnitude_lt_of_exponent_lt hlt).ne
    · exact heq
    · exact absurd h (magnitude_lt_of_exponent_lt hgt).ne'
  refine ⟨hexp, ?_⟩
  rw [magnitude, magnitude, hexp, mul_left_inj' (by positivity)] at h
  exact_mod_cast h

/-- The exact sum rounds to a normal number or is zero. -/
def ReachesNormal (x : ℚ) : Prop := InNormalRange (roundTo 113 x) ∨ roundTo 113 x = 0

theorem f128Add_encodes_iff (hfa : IsFinite a) (hfb : IsFinite b)
    (hrange : ReachesNormal (toRat a + toRat b)) :
    Encodes (f128Add a b) (roundTo 113 (toRat a + toRat b)) ↔ AdditionRounds a b := by
  unfold AdditionRounds
  by_cases ha : significand a = 0
  · have hval := toRat_of_significand_zero ha
    rw [f128Add_zero_left ha hfb, hval, zero_add, roundTo_toRat]
    by_cases hb : significand b = 0
    · have hnot : ¬ MagnitudeLt a b := by
        have hexp := exponent_of_significand_lt (v := b) (by rw [hb]; decide)
        have hmin := neg16382_le_exponent a
        unfold MagnitudeLt
        omega
      rw [if_pos hb, if_neg hnot, toRat_of_significand_zero hb]
      exact iff_of_true (encodes_makeZero _) (additionRoundsSorted_zero hb)
    · rw [if_neg hb, if_pos (magnitudeLt_of_zero ha hb)]
      exact iff_of_true ⟨hfb, rfl⟩ (additionRoundsSorted_zero ha)
  by_cases hb : significand b = 0
  · have hnot : ¬ MagnitudeLt a b := by
      have hlt := magnitudeLt_of_zero hb ha
      unfold MagnitudeLt at *
      omega
    rw [f128Add_zero_right hfa ha hb, toRat_of_significand_zero hb, add_zero, roundTo_toRat,
      if_neg hnot]
    exact iff_of_true ⟨hfa, rfl⟩ (additionRoundsSorted_zero hb)
  obtain ⟨mantA, mantB, hA, hB, hrun⟩ := f128Add_nonzero hfa hfb ha hb
  rw [hrun]
  by_cases hzero : toRat a + toRat b = 0
  · -- complete cancellation: the operands differ in sign only
    have hopp : toRat a = -toRat b := by linarith
    have hmag : magnitude a = magnitude b := by
      rw [← abs_toRat, ← abs_toRat, hopp, abs_neg]
    obtain ⟨hexp, hsig⟩ := magnitude_inj hmag
    have hsign : signBit a ≠ signBit b := by
      intro hsame
      have hsum : signed (signBit b) (magnitude b) + signed (signBit b) (magnitude b) = 0 := by
        rw [toRat_eq_signed, toRat_eq_signed, hsame, hmag] at hzero
        exact hzero
      have hself : toRat b = 0 := by
        rw [toRat_eq_signed]
        linarith
      exact (toRat_ne_zero_iff b).mpr hb hself
    have hnot : ¬ MagnitudeLt a b := by unfold MagnitudeLt; omega
    have hmant : u128Eq mantA mantB = true := (u128Eq_iff _ _).mpr (by omega)
    rw [if_neg hnot, if_neg hnot, hzero, roundTo_zero, f128AddSorted, if_neg hsign,
      if_pos ⟨hmant, hexp⟩]
    refine iff_of_true (encodes_makeZero false) ?_
    rw [AdditionRoundsSorted, if_neg hsign, hexp, sub_self]
    exact Or.inl (Nat.mod_one _)
  · have hnormal : InNormalRange (roundTo 113 (toRat a + toRat b)) :=
      hrange.resolve_right (roundTo_ne_zero (by decide) hzero)
    split
    · rename_i hlt
      have hnot : ¬ MagnitudeLt b a := by unfold MagnitudeLt at *; omega
      have h := f128AddSorted_encodes_iff (sorted_of_not_lt hB hA hnot)
      rw [partsRat_unpacked hA, partsRat_unpacked hB, add_comm, sortedRounds_iff hB hA] at h
      exact h hzero hnormal
    · rename_i hnot
      have h := f128AddSorted_encodes_iff (sorted_of_not_lt hA hB hnot)
      rw [partsRat_unpacked hA, partsRat_unpacked hB, sortedRounds_iff hA hB] at h
      exact h hzero hnormal

theorem toNat_flipSign (w : BitVec 64) :
    (w ^^^ (0x80#64 <<< 56)).toNat =
      if 2 ^ 63 ≤ w.toNat then w.toNat - 2 ^ 63 else w.toNat + 2 ^ 63 := by
  have hlt := w.isLt
  have hmask : (0x80#64 <<< 56).toNat = 2 ^ 63 := by decide
  have hlow : (w.toNat ^^^ 2 ^ 63) % 2 ^ 63 = w.toNat % 2 ^ 63 := by
    rw [Nat.xor_mod_two_pow, Nat.mod_self, Nat.xor_zero]
  have hhigh : (w.toNat ^^^ 2 ^ 63) / 2 ^ 63 = w.toNat / 2 ^ 63 ^^^ 1 := by
    rw [Nat.xor_div_two_pow, Nat.div_self (by decide)]
  rw [BitVec.toNat_xor, hmask]
  have hbit : w.toNat / 2 ^ 63 = 0 ∨ w.toNat / 2 ^ 63 = 1 := by omega
  rcases hbit with hbit | hbit
  · rw [hbit, show 0 ^^^ 1 = 1 from rfl] at hhigh
    rw [if_neg (by omega)]
    omega
  · rw [hbit, show 1 ^^^ 1 = 0 from rfl] at hhigh
    rw [if_pos (by omega)]
    omega

/-- Negation flips the sign bit and keeps the other fields. -/
theorem fields_f128Neg (v : LrF128) :
    signBit (f128Neg v) = !signBit v ∧ biasedExp (f128Neg v) = biasedExp v ∧
      fraction (f128Neg v) = fraction v := by
  have hlt := v.hi.isLt
  have hflip : (f128Neg v).hi.toNat =
      if 2 ^ 63 ≤ v.hi.toNat then v.hi.toNat - 2 ^ 63 else v.hi.toNat + 2 ^ 63 :=
    toNat_flipSign v.hi
  have hlo : (f128Neg v).lo = v.lo := rfl
  unfold signBit biasedExp fraction
  by_cases h : 2 ^ 63 ≤ v.hi.toNat
  · rw [if_pos h] at hflip
    refine ⟨?_, by omega, by rw [hlo]; omega⟩
    rw [decide_eq_true h]
    exact decide_eq_false (by omega)
  · rw [if_neg h] at hflip
    refine ⟨?_, by omega, by rw [hlo]; omega⟩
    rw [decide_eq_false h]
    exact decide_eq_true (by omega)

theorem isFinite_f128Neg (h : IsFinite v) : IsFinite (f128Neg v) := by
  rw [IsFinite, (fields_f128Neg v).2.1]
  exact h

theorem toRat_f128Neg (v : LrF128) : toRat (f128Neg v) = -toRat v := by
  obtain ⟨hsign, hexp, hfrac⟩ := fields_f128Neg v
  simp only [toRat, magnitude, significand, exponent, hsign, hexp, hfrac]
  cases signBit v <;> simp

/-- For finite operands, `lr_f128_add` returns the encoding of the exact sum
rounded to 113 bits to nearest even, whenever that is a normal number or zero,
exactly if `AdditionRounds` holds of the operands; `lr_f128_sub` does so exactly
if it holds of `a` and the negated `b`. The order of the operands of a sum does
not matter. -/
theorem f128_addition_correct_iff (a b : LrF128) (hfa : IsFinite a) (hfb : IsFinite b) :
    (ReachesNormal (toRat a + toRat b) →
      (Encodes (f128Add a b) (roundTo 113 (toRat a + toRat b)) ↔ AdditionRounds a b)) ∧
    (ReachesNormal (toRat a - toRat b) →
      (Encodes (f128Sub a b) (roundTo 113 (toRat a - toRat b)) ↔ AdditionRounds a (f128Neg b))) ∧
    f128Add a b = f128Add b a := by
  refine ⟨f128Add_encodes_iff hfa hfb, ?_, f128Add_comm hfa hfb⟩
  intro hrange
  have h := f128Add_encodes_iff hfa (isFinite_f128Neg hfb)
  rw [toRat_f128Neg, ← sub_eq_add_neg] at h
  exact h hrange

/-- Numbers between one and four are in range. -/
theorem reachesNormal_of_bounds {x : ℚ} (hlow : 2 ^ (0 : ℤ) ≤ x) (hhigh : x < 2 ^ (2 : ℤ)) :
    ReachesNormal x := by
  have hge := zpow_le_roundTo (p := 113) (by decide) hlow
  have hle := roundTo_le_zpow (p := 113) (by decide) (lt_of_lt_of_le (by norm_num) hlow) hhigh
  have hpos : 0 < roundTo 113 x := lt_of_lt_of_le (by positivity) hge
  left
  rw [InNormalRange, abs_of_pos hpos]
  exact ⟨le_trans (zpow_le_zpow_right₀ (by norm_num) (by norm_num)) hge,
    lt_of_le_of_lt hle (zpow_lt_zpow_right₀ (by norm_num) (by norm_num))⟩

/-- `1.0 + 1.0` is `2.0`, and `1.0 - 1.0` is zero. -/
theorem f128_addition_correct_one_one :
    AdditionRounds ⟨0, 0x3FFF000000000000⟩ ⟨0, 0x3FFF000000000000⟩ ∧
    Encodes (f128Add ⟨0, 0x3FFF000000000000⟩ ⟨0, 0x3FFF000000000000⟩) (roundTo 113 (1 + 1)) ∧
    Encodes (f128Sub ⟨0, 0x3FFF000000000000⟩ ⟨0, 0x3FFF000000000000⟩) (roundTo 113 (1 - 1)) := by
  have hcond : AdditionRounds ⟨0, 0x3FFF000000000000⟩ ⟨0, 0x3FFF000000000000⟩ := by
    decide +kernel
  have hcond' : AdditionRounds ⟨0, 0x3FFF000000000000⟩ (f128Neg ⟨0, 0x3FFF000000000000⟩) := by
    decide +kernel
  obtain ⟨hadd, hsub, -⟩ := f128_addition_correct_iff ⟨0, 0x3FFF000000000000⟩
    ⟨0, 0x3FFF000000000000⟩ (by decide) (by decide)
  rw [toRat_one] at hadd hsub
  refine ⟨hcond, (hadd ?_).mpr hcond, (hsub ?_).mpr hcond'⟩
  · exact reachesNormal_of_bounds (by norm_num) (by norm_num)
  · exact Or.inr (by rw [sub_self, roundTo_zero])

/-- `1.0 + (0.5 + 3 * 2 ^ -113)` has its exact half-way case rounded down to an
odd last bit. -/
theorem f128Add_tie_to_odd :
    IsFinite ⟨0, 0x3FFF000000000000⟩ ∧ IsFinite ⟨3, 0x3FFE000000000000⟩ ∧
    ReachesNormal (toRat ⟨0, 0x3FFF000000000000⟩ + toRat ⟨3, 0x3FFE000000000000⟩) ∧
    ¬ Encodes (f128Add ⟨0, 0x3FFF000000000000⟩ ⟨3, 0x3FFE000000000000⟩)
      (roundTo 113 (toRat ⟨0, 0x3FFF000000000000⟩ + toRat ⟨3, 0x3FFE000000000000⟩)) := by
  have hval : toRat ⟨3, 0x3FFE000000000000⟩ = (2 ^ 112 + 3) / 2 ^ 113 := by
    rw [toRat_of_fields (m := 2 ^ 112 + 3) (e := -1) (by decide) (by decide) (by decide)]
    norm_num
  have hrange : ReachesNormal
      (toRat ⟨0, 0x3FFF000000000000⟩ + toRat ⟨3, 0x3FFE000000000000⟩) := by
    rw [toRat_one, hval]
    exact reachesNormal_of_bounds (by norm_num) (by norm_num)
  refine ⟨by decide, by decide, hrange, ?_⟩
  rw [f128Add_encodes_iff (by decide) (by decide) hrange]
  decide +kernel

end Liric.Guarantees.Float128
