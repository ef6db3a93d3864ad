import Liric.Guarantees.Float128Addition
import Liric.Lib.ThreeWay

/-!
# Comparing binary128 numbers

An encoding that is no NaN has a value among the rationals with two infinities, and
`f128_cmp_internal` gives the order of the values: it settles zeros and signs first and
then compares sizes, field by field.
-/
namespace Liric.Guarantees.Float128
open Source.Float128 Lib

def IsNan (v : LrF128) : Prop := ¬ IsFinite v ∧ fraction v ≠ 0

instance (v : LrF128) : Decidable (IsNan v) := inferInstanceAs (Decidable (_ ∧ _))

/-- The value of an encoding, with the infinities at the ends. -/
def extRat (v : LrF128) : WithBot (WithTop ℚ) :=
  if IsFinite v then ((toRat v : WithTop ℚ) : WithBot (WithTop ℚ))
  else if signBit v then ⊥ else ⊤

section NotFinite
variable {v : LrF128}

theorem biasedExp_of_not_finite (h : ¬ IsFinite v) : biasedExp v = 0x7FFF := by
  by_contra hne
  exact h hne

theorem f128Unpack_nan (h : IsNan v) : (f128Unpack v).isNan = true := by
  have hexp := biasedExp_of_not_finite h.1
  have hfrac : v.hi &&& fracMask ≠ 0#64 ∨ v.lo ≠ 0#64 := by
    rw [← not_and_or]
    exact fun hzero => h.2 ((fraction_eq_zero_iff v).2 hzero)
  simp only [f128Unpack, expField_eq]
  rw [if_pos (by omega), if_pos hfrac]

theorem f128Unpack_inf (hfin : ¬ IsFinite v) (hnan : ¬ IsNan v) :
    f128Unpack v = { sign := signBit v, isInf := true } := by
  have hexp := biasedExp_of_not_finite hfin
  have hzero : fraction v = 0 := by
    by_contra hne
    exact hnan ⟨hfin, hne⟩
  have hfrac : ¬ (v.hi &&& fracMask ≠ 0#64 ∨ v.lo ≠ 0#64) := by
    rw [← not_and_or, not_not]
    exact (fraction_eq_zero_iff v).1 hzero
  simp only [f128Unpack, expField_eq, signField_eq]
  rw [if_pos (by omega), if_neg hfrac]

theorem not_isNan_unpacked (h : ¬ IsNan v) : (f128Unpack v).isNan = false := by
  by_cases hfin : IsFinite v
  · by_cases hsig : significand v = 0
    · rw [f128Unpack_zero hsig]
    · obtain ⟨mant, hrun, -⟩ := f128Unpack_finite hfin hsig
      rw [hrun]
  · rw [f128Unpack_inf hfin h]

end NotFinite

/-- The size of an encoding that is no NaN. -/
def extMagnitude (v : LrF128) : WithTop ℚ := if IsFinite v then (magnitude v : WithTop ℚ) else ⊤

/-- The same size on the other side of zero. -/
def extNeg : WithTop ℚ → WithBot (WithTop ℚ)
  | none => ⊥
  | some x => ((-x : ℚ) : WithTop ℚ)

theorem extNeg_zero : extNeg 0 = 0 := by
  have h : extNeg ((0 : ℚ) : WithTop ℚ) = (((-0 : ℚ) : WithTop ℚ) : WithBot (WithTop ℚ)) := rfl
  rwa [neg_zero] at h

theorem extNeg_strictAnti : StrictAnti extNeg := by
  intro x y hxy
  cases y using WithTop.recTopCoe with
  | top =>
    obtain ⟨q, rfl⟩ := WithTop.ne_top_iff_exists.1 hxy.ne
    exact WithBot.bot_lt_coe _
  | coe y =>
    obtain ⟨q, rfl⟩ := WithTop.ne_top_iff_exists.1 (hxy.trans (WithTop.coe_lt_top y)).ne
    rw [WithTop.coe_lt_coe] at hxy
    exact WithBot.coe_lt_coe.2 (WithTop.coe_lt_coe.2 (neg_lt_neg hxy))

variable {v : LrF128}

theorem extRat_of_positive (h : signBit v = false) :
    extRat v = (extMagnitude v : WithBot (WithTop ℚ)) := by
  unfold extRat extMagnitude
  split
  · rw [toRat, h, if_neg Bool.false_ne_true]
  · rw [h, if_neg Bool.false_ne_true]
    rfl

theorem extRat_of_negative (h : signBit v = true) : extRat v = extNeg (extMagnitude v) := by
  unfold extRat extMagnitude
  split
  · rw [toRat, h, if_pos rfl]
    rfl
  · rfl

theorem extMagnitude_pos (h : significand v ≠ 0) : 0 < extMagnitude v := by
  unfold extMagnitude
  split
  · have hpos : 0 < magnitude v :=
      lt_of_le_of_ne (magnitude_nonneg v) (by rw [← abs_toRat]; exact (abs_pos.2
        ((toRat_ne_zero_iff v).2 h)).ne)
    exact WithTop.coe_lt_coe.2 hpos
  · exact WithTop.coe_lt_top 0

theorem zero_lt_extRat (hsign : signBit v = false) (h : significand v ≠ 0) : 0 < extRat v := by
  rw [extRat_of_positive hsign]
  exact WithBot.coe_lt_coe.2 (extMagnitude_pos h)

theorem extRat_lt_zero (hsign : signBit v = true) (h : significand v ≠ 0) : extRat v < 0 := by
  rw [extRat_of_negative hsign]
  have hneg := extNeg_strictAnti (extMagnitude_pos h)
  rwa [extNeg_zero] at hneg

theorem extRat_zero (h : significand v = 0) : extRat v = 0 := by
  have hfin : IsFinite v := by
    intro hexp
    rw [significand, if_neg (by omega)] at h
    omega
  rw [extRat, if_pos hfin, toRat_of_significand_zero h]
  rfl

/-- The exponents and then the significands order the sizes. -/
theorem threeWay_magnitude (a b : LrF128) {mantA mantB : U128} (hA : limbs mantA = significand a)
    (hB : limbs mantB = significand b) :
    ThreeWay (if exponent a ≠ exponent b then (if exponent a > exponent b then 1 else -1)
      else if u128Gt mantA mantB then 1 else if u128Lt mantA mantB then -1 else 0)
      (magnitude a) (magnitude b) := by
  by_cases hexp : exponent a = exponent b
  · have hscale : (0 : ℚ) < 2 ^ (exponent b - 112) := by positivity
    simp only [hexp, ne_eq, not_true_eq_false, if_false, u128Gt_iff, u128Lt_iff, hA, hB]
    rcases lt_trichotomy (significand a) (significand b) with hlt | heq | hgt
    · rw [if_neg (by omega), if_pos hlt]
      refine .less ?_
      rw [magnitude, magnitude, hexp]
      exact mul_lt_mul_of_pos_right (by exact_mod_cast hlt) hscale
    · rw [if_neg (by omega), if_neg (by omega)]
      refine .same ?_
      rw [magnitude, magnitude, hexp, heq]
    · rw [if_pos hgt]
      refine .greater ?_
      rw [magnitude, magnitude, hexp]
      exact mul_lt_mul_of_pos_right (by exact_mod_cast hgt) hscale
  · rw [if_pos hexp]
    rcases lt_or_gt_of_ne hexp with hlt | hgt
    · rw [if_neg (by omega)]
      exact .less (magnitude_lt_of_exponent_lt hlt)
    · rw [if_pos hgt]
      exact .greater (magnitude_lt_of_exponent_lt hgt)

variable {a b : LrF128}

/-- The last part of `f128_cmp_internal`: how the sizes of two numbers that are not
zero stand to each other. -/
theorem threeWay_size (ha : ¬ IsNan a) (hb : ¬ IsNan b) (ha' : significand a ≠ 0)
    (hb' : significand b ≠ 0) :
    ThreeWay
      (if (f128Unpack a).isInf && (f128Unpack b).isInf then 0
      else if (f128Unpack a).isInf then 1
      else if (f128Unpack b).isInf then -1
      else if (f128Unpack a).exp ≠ (f128Unpack b).exp then
        (if (f128Unpack a).exp > (f128Unpack b).exp then 1 else -1)
      else if u128Gt (f128Unpack a).mant (f128Unpack b).mant then 1
      else if u128Lt (f128Unpack a).mant (f128Unpack b).mant then -1
      else 0)
      (extMagnitude a) (extMagnitude b) := by
  by_cases hfa : IsFinite a <;> by_cases hfb : IsFinite b
  · obtain ⟨mantA, hrunA, hmantA⟩ := f128Unpack_finite hfa ha'
    obtain ⟨mantB, hrunB, hmantB⟩ := f128Unpack_finite hfb hb'
    simp only [hrunA, hrunB, Bool.and_self, Bool.false_eq_true, if_false, extMagnitude, if_pos hfa,
      if_pos hfb]
    exact (threeWay_magnitude a b hmantA hmantB).map WithTop.coe_strictMono
  · obtain ⟨mantA, hrunA, hmantA⟩ := f128Unpack_finite hfa ha'
    simp only [hrunA, f128Unpack_inf hfb hb, Bool.and_true, Bool.false_eq_true, if_false, if_true,
      extMagnitude, if_pos hfa, if_neg hfb]
    exact .less (WithTop.coe_lt_top _)
  · obtain ⟨mantB, hrunB, hmantB⟩ := f128Unpack_finite hfb hb'
    simp only [hrunB, f128Unpack_inf hfa ha, Bool.and_false, Bool.false_eq_true, if_false, if_true,
      extMagnitude, if_neg hfa, if_pos hfb]
    exact .greater (WithTop.coe_lt_top _)
  · simp only [f128Unpack_inf hfa ha, f128Unpack_inf hfb hb, Bool.and_self, if_true, extMagnitude,
      if_neg hfa, if_neg hfb]
    exact .same rfl

theorem sign_unpacked (v : LrF128) : (f128Unpack v).sign = signBit v := by
  rw [f128Unpack, signField_eq]
  split
  · split <;> rfl
  · split
    · rfl
    · split <;> rfl

theorem isZero_unpacked (h : ¬ IsNan v) : (f128Unpack v).isZero = decide (significand v = 0) := by
  by_cases hsig : significand v = 0
  · rw [f128Unpack_zero hsig, decide_eq_true hsig]
  · rw [decide_eq_false hsig]
    by_cases hfin : IsFinite v
    · obtain ⟨mant, hrun, -⟩ := f128Unpack_finite hfin hsig
      rw [hrun]
    · rw [f128Unpack_inf hfin h]

theorem f128CmpInternal_threeWay (ha : ¬ IsNan a) (hb : ¬ IsNan b) :
    ThreeWay (f128CmpInternal a b) (extRat a) (extRat b) := by
  simp only [f128CmpInternal, not_isNan_unpacked ha, not_isNan_unpacked hb, isZero_unpacked ha,
    isZero_unpacked hb, sign_unpacked, Bool.or_self, Bool.false_eq_true,
    if_false, Bool.and_eq_true, decide_eq_true_eq]
  by_cases hza : significand a = 0
  · by_cases hzb : significand b = 0
    · rw [if_pos ⟨hza, hzb⟩, extRat_zero hza, extRat_zero hzb]
      exact .same rfl
    · rw [if_neg (by tauto), if_pos hza, extRat_zero hza]
      cases hs : signBit b with
      | false => exact .less (zero_lt_extRat hs hzb)
      | true => exact .greater (extRat_lt_zero hs hzb)
  rw [if_neg (by tauto), if_neg hza]
  by_cases hzb : significand b = 0
  · rw [if_pos hzb, extRat_zero hzb]
    cases hs : signBit a with
    | false => exact .greater (zero_lt_extRat hs hza)
    | true => exact .less (extRat_lt_zero hs hza)
  rw [if_neg hzb]
  have hsize := threeWay_size ha hb hza hzb
  cases hsa : signBit a with
  | false =>
    cases hsb : signBit b with
    | false =>
      rw [if_neg (by simp), if_neg Bool.false_ne_true, extRat_of_positive hsa,
        extRat_of_positive hsb]
      simpa using hsize.map WithBot.coe_strictMono
    | true =>
      rw [if_pos (by decide), if_neg Bool.false_ne_true]
      exact .greater ((extRat_lt_zero hsb hzb).trans (zero_lt_extRat hsa hza))
  | true =>
    cases hsb : signBit b with
    | false =>
      rw [if_pos (by decide), if_pos rfl]
      exact .less ((extRat_lt_zero hsa hza).trans (zero_lt_extRat hsb hzb))
    | true =>
      rw [if_neg (by simp), if_pos rfl, extRat_of_negative hsa, extRat_of_negative hsb]
      simpa using hsize.map_anti extNeg_strictAnti

theorem f128CmpInternal_nan (h : IsNan a ∨ IsNan b) : f128CmpInternal a b = 2 := by
  have hnan : ((f128Unpack a).isNan || (f128Unpack b).isNan) = true := by
    rw [Bool.or_eq_true]
    exact h.imp f128Unpack_nan f128Unpack_nan
  rw [f128CmpInternal, if_pos hnan]

/-- Every comparison of `a` and `b` is the comparison of their values. -/
structure FollowsOrder (a b : LrF128) : Prop where
  less : f128CmpInternal a b = -1 ↔ extRat a < extRat b
  same : f128CmpInternal a b = 0 ↔ extRat a = extRat b
  greater : f128CmpInternal a b = 1 ↔ extRat b < extRat a
  lt : lrF128Lt a b = true ↔ extRat a < extRat b
  le : lrF128Le a b = true ↔ extRat a ≤ extRat b
  gt : lrF128Gt a b = true ↔ extRat b < extRat a
  ge : lrF128Ge a b = true ↔ extRat b ≤ extRat a
  eq : lrF128Eq a b = true ↔ extRat a = extRat b
  ne : lrF128Ne a b = true ↔ extRat a ≠ extRat b

theorem followsOrder (ha : ¬ IsNan a) (hb : ¬ IsNan b) : FollowsOrder a b := by
  have h := f128CmpInternal_threeWay ha hb
  have hrange := h.range
  have hordered : f128CmpInternal a b ≠ 2 := by omega
  refine ⟨h.eq_neg_one_iff, h.eq_zero_iff, h.eq_one_iff, ?_, ?_, ?_, ?_, ?_, ?_⟩
  · rw [← h.eq_neg_one_iff, lrF128Lt, orderedCmp, if_neg hordered, decide_eq_true_eq]
    omega
  · rw [← not_lt, ← h.eq_one_iff, lrF128Le, orderedCmp, if_neg hordered, decide_eq_true_eq]
    omega
  · rw [← h.eq_one_iff, lrF128Gt, orderedCmp, if_neg hordered, decide_eq_true_eq]
    omega
  · rw [← not_lt, ← h.eq_neg_one_iff, lrF128Ge, orderedCmp, if_neg hordered, decide_eq_true_eq]
    omega
  · rw [← h.eq_zero_iff, lrF128Eq, beq_iff_eq]
  · rw [ne_eq, ← h.eq_zero_iff, lrF128Ne]
    simp [hordered]

/-- No comparison holds of a NaN but `ne`. -/
def Unordered (a b : LrF128) : Prop :=
  lrF128Ne a b = true ∧ lrF128Eq a b = false ∧ lrF128Lt a b = false ∧ lrF128Le a b = false ∧
    lrF128Gt a b = false ∧ lrF128Ge a b = false

theorem unordered_of_nan (h : IsNan a ∨ IsNan b) : Unordered a b := by
  have hcmp := f128CmpInternal_nan h
  simp [Unordered, lrF128Ne, lrF128Eq, lrF128Lt, lrF128Le, lrF128Gt, lrF128Ge, orderedCmp, hcmp]

/-- The comparisons are those of the values, `le` is a total preorder on the numbers,
and a NaN is unordered to everything. -/
theorem comparisons_follow_order :
    (∀ a b, ¬ IsNan a → ¬ IsNan b → FollowsOrder a b) ∧
    (∀ a b, ¬ IsNan a → ¬ IsNan b → lrF128Le a b = true ∨ lrF128Le b a = true) ∧
    (∀ a b c, ¬ IsNan a → ¬ IsNan b → ¬ IsNan c → lrF128Le a b = true → lrF128Le b c = true →
      lrF128Le a c = true) ∧
    (∀ a b, IsNan a ∨ IsNan b → Unordered a b) := by
  refine ⟨fun a b ha hb => followsOrder ha hb, ?_, ?_, fun a b h => unordered_of_nan h⟩
  · intro a b ha hb
    rw [(followsOrder ha hb).le, (followsOrder hb ha).le]
    exact le_total _ _
  · intro a b c ha hb hc hab hbc
    rw [(followsOrder ha hb).le] at hab
    rw [(followsOrder hb hc).le] at hbc
    rw [(followsOrder ha hc).le]
    exact hab.trans hbc

theorem comparisons_follow_order_zeros_nan :
    FollowsOrder (f128MakeZero false) (f128MakeZero true) ∧
    (lrF128Le (f128MakeInf true) (f128MakeInf false) = true ∨
      lrF128Le (f128MakeInf false) (f128MakeInf true) = true) ∧
    lrF128Le (f128MakeInf true) (f128MakeInf false) = true ∧
    Unordered f128MakeNan f128MakeNan :=
  ⟨comparisons_follow_order.1 _ _ (by decide) (by decide),
    comparisons_follow_order.2.1 _ _ (by decide) (by decide),
    comparisons_follow_order.2.2.1 _ (f128MakeZero false) _ (by decide) (by decide) (by decide)
      (by decide) (by decide),
    comparisons_follow_order.2.2.2 _ _ (by decide)⟩

end Liric.Guarantees.Float128
