import Mathlib.Data.Int.Log
import Mathlib.Data.Rat.Floor
import Mathlib.Algebra.Order.Field.Power
import Mathlib.Tactic.Positivity

/-!
# Rounding to nearest, ties to even

`roundHalfEven` rounds a rational to an integer, `roundTo p` rounds it to `p`
significant bits with an unbounded exponent. The characterisation
`roundTo_eq_iff` reduces an equality with a multiple of the last place to a
distance: below half a unit, or exactly half with an even multiple.
-/
namespace Liric.Lib
open Int

/-- The nearest integer; a tie goes to the even neighbour. -/
def roundHalfEven (x : ℚ) : ℤ :=
  if fract x < 1 / 2 then ⌊x⌋
  else if 1 / 2 < fract x then ⌊x⌋ + 1
  else if Even ⌊x⌋ then ⌊x⌋ else ⌊x⌋ + 1

/-- The exponent of the last of `p` significant bits of `x`. -/
def lastPlace (p : ℕ) (x : ℚ) : ℤ := log 2 |x| - (p - 1)

/-- `x` rounded to `p` significant bits. -/
def roundTo (p : ℕ) (x : ℚ) : ℚ :=
  roundHalfEven (x / 2 ^ lastPlace p x) * 2 ^ lastPlace p x

variable {n : ℤ}

theorem roundHalfEven_of_near {x : ℚ}
    (h : |x - n| < 1 / 2 ∨ |x - n| = 1 / 2 ∧ Even n) : roundHalfEven x = n := by
  have hle : |x - n| ≤ 1 / 2 := h.elim le_of_lt (fun htie => htie.1.le)
  obtain ⟨hlow, hhigh⟩ := abs_le.mp hle
  have hfloor : ⌊x⌋ = n ∨ ⌊x⌋ = n - 1 := by
    have hlt : ⌊x⌋ < n + 1 := floor_lt.mpr (by push_cast; linarith)
    have hge : n - 1 ≤ ⌊x⌋ := le_floor.mpr (by push_cast; linarith)
    omega
  have hfract : fract x = x - ⌊x⌋ := rfl
  unfold roundHalfEven
  rcases hfloor with heq | heq
  · rw [heq] at hfract ⊢
    have hnot : ¬ 1 / 2 < fract x := by rw [hfract]; linarith
    rcases h with hlt | ⟨htie, heven⟩
    · rw [if_pos (by rw [hfract]; exact lt_of_le_of_lt (le_abs_self _) hlt)]
    · rw [if_neg hnot, if_pos heven, ite_self]
  · rw [heq] at hfract ⊢
    have hsplit : x - n = fract x - 1 := by rw [hfract]; push_cast; ring
    have hnot : ¬ fract x < 1 / 2 := by linarith
    have hfl : fract x < 1 := fract_lt_one x
    rw [if_neg hnot]
    rcases h with hlt | ⟨htie, heven⟩
    · rw [if_pos (by rw [hsplit, abs_of_neg (by linarith)] at hlt; linarith)]
      ring
    · have hodd : ¬ Even (n - 1) := by
        rw [not_even_iff_odd]
        exact heven.sub_odd odd_one
      rw [if_neg hodd, sub_add_cancel, ite_self]

theorem roundHalfEven_near (x : ℚ) :
    |x - roundHalfEven x| < 1 / 2 ∨ |x - roundHalfEven x| = 1 / 2 ∧ Even (roundHalfEven x) := by
  have hfract : x - ⌊x⌋ = fract x := rfl
  have hnonneg := fract_nonneg x
  have hlt := fract_lt_one x
  have hup : x - ((⌊x⌋ + 1 : ℤ) : ℚ) = -(1 - fract x) := by rw [← hfract]; push_cast; ring
  unfold roundHalfEven
  split
  · left
    rwa [hfract, abs_of_nonneg hnonneg]
  · split
    · left
      rw [hup, abs_neg, abs_of_pos (by linarith)]
      linarith
    · have hhalf : fract x = 1 / 2 := by linarith
      right
      split
      · rename_i heven
        exact ⟨by rw [hfract, abs_of_nonneg hnonneg, hhalf], heven⟩
      · rename_i hodd
        refine ⟨by rw [hup, abs_neg, abs_of_pos (by linarith), hhalf]; norm_num, ?_⟩
        exact (not_even_iff_odd.mp hodd).add_odd odd_one

theorem roundHalfEven_eq_iff {x : ℚ} :
    roundHalfEven x = n ↔ |x - n| < 1 / 2 ∨ |x - n| = 1 / 2 ∧ Even n := by
  constructor
  · rintro rfl
    exact roundHalfEven_near x
  · exact roundHalfEven_of_near

theorem roundHalfEven_neg (x : ℚ) : roundHalfEven (-x) = -roundHalfEven x := by
  rw [roundHalfEven_eq_iff]
  have hneg : -x - ((-roundHalfEven x : ℤ) : ℚ) = -(x - roundHalfEven x) := by push_cast; ring
  rw [hneg, abs_neg, even_neg]
  exact roundHalfEven_near x

/-- Rounding off the low `r + 1` bits of a natural number, in the way it is done
with a quotient, a remainder and a half. -/
theorem roundHalfEven_div_two_pow (m r : ℕ) :
    roundHalfEven ((m : ℚ) / 2 ^ (r + 1)) =
      ((m / 2 ^ (r + 1) + if 2 ^ r < m % 2 ^ (r + 1) ∨
        (m % 2 ^ (r + 1) = 2 ^ r ∧ (m / 2 ^ (r + 1)) % 2 = 1) then 1 else 0 : ℕ) : ℤ) := by
  have hdiv : (m : ℚ) = (m / 2 ^ (r + 1) : ℕ) * 2 ^ (r + 1) + (m % 2 ^ (r + 1) : ℕ) := by
    have h := Nat.div_add_mod' m (2 ^ (r + 1))
    exact_mod_cast h.symm
  have hrem : ((m % 2 ^ (r + 1) : ℕ) : ℚ) < 2 ^ (r + 1) := by
    exact_mod_cast Nat.mod_lt m (Nat.two_pow_pos _)
  generalize m / 2 ^ (r + 1) = q at *
  generalize hr : m % 2 ^ (r + 1) = rem at *
  have hpos : (0 : ℚ) < 2 ^ r := by positivity
  have hx : (m : ℚ) / 2 ^ (r + 1) = q + rem / (2 * 2 ^ r) := by
    rw [hdiv, pow_succ]
    field_simp
  rw [roundHalfEven_eq_iff, hx]
  split
  · rename_i hup
    have hdist : (q + rem / (2 * 2 ^ r) : ℚ) - ((q + 1 : ℕ) : ℤ) =
        -((2 * 2 ^ r - rem) / (2 * 2 ^ r)) := by
      push_cast
      field_simp
      ring
    have habs : |(q + rem / (2 * 2 ^ r) : ℚ) - ((q + 1 : ℕ) : ℤ)| =
        (2 * 2 ^ r - rem) / (2 * 2 ^ r) := by
      rw [hdist, abs_neg, abs_of_nonneg]
      rw [pow_succ] at hrem
      apply div_nonneg <;> linarith
    rw [habs]
    rcases hup with h | ⟨h, hodd⟩
    · left
      have h' : (2 : ℚ) ^ r < rem := by exact_mod_cast h
      rw [div_lt_div_iff₀ (by positivity) (by norm_num)]
      linarith
    · right
      have h' : (rem : ℚ) = 2 ^ r := by exact_mod_cast h
      refine ⟨by rw [h']; field_simp; ring, ?_⟩
      rw [even_coe_nat, Nat.even_iff]
      omega
  · rename_i hdown
    rw [not_or, not_lt, not_and_or] at hdown
    have hdist : (q + rem / (2 * 2 ^ r) : ℚ) - ((q + 0 : ℕ) : ℤ) = rem / (2 * 2 ^ r) := by
      push_cast
      ring
    rw [hdist, abs_of_nonneg (by positivity)]
    rcases hdown.1.lt_or_eq with hlt | heq
    · left
      have h' : (rem : ℚ) < 2 ^ r := by exact_mod_cast hlt
      rw [div_lt_div_iff₀ (by positivity) (by norm_num)]
      linarith
    · right
      refine ⟨by rw [heq]; push_cast; field_simp, ?_⟩
      rw [even_coe_nat, Nat.even_iff]
      rcases hdown.2 with hne | heven
      · exact absurd heq hne
      · omega

variable {p : ℕ} {x : ℚ}

variable {k : ℤ}

theorem lastPlace_of_bounds (hlow : 2 ^ k ≤ x) (hhigh : x < 2 ^ (k + 1)) :
    lastPlace p x = k - (p - 1) := by
  have hpos : 0 < x := lt_of_lt_of_le (by positivity) hlow
  rw [lastPlace, abs_of_pos hpos]
  have hlog : log 2 x = k := by
    apply le_antisymm
    · rw [← lt_add_one_iff, ← lt_zpow_iff_log_lt (by decide) hpos]
      exact_mod_cast hhigh
    · rw [← zpow_le_iff_le_log (by decide) hpos]
      exact_mod_cast hlow
  rw [hlog]

theorem exists_bounds (hx : 0 < x) : ∃ k : ℤ, 2 ^ k ≤ x ∧ x < 2 ^ (k + 1) := by
  refine ⟨log 2 x, ?_, ?_⟩
  · exact_mod_cast zpow_log_le_self (by decide) hx
  · exact_mod_cast lt_zpow_succ_log_self (by decide : 1 < 2) x

theorem roundTo_eq_iff {u : ℤ} (hu : lastPlace p x = u) :
    roundTo p x = n * 2 ^ u ↔
      |x - n * 2 ^ u| < 2 ^ u / 2 ∨ |x - n * 2 ^ u| = 2 ^ u / 2 ∧ Even n := by
  have hpos : (0 : ℚ) < 2 ^ u := by positivity
  have hdist : |x / 2 ^ u - n| = |x - n * 2 ^ u| / 2 ^ u := by
    rw [show x / 2 ^ u - n = (x - n * 2 ^ u) / 2 ^ u by field_simp, abs_div, abs_of_pos hpos]
  rw [roundTo, hu, mul_left_inj' hpos.ne', Int.cast_inj, roundHalfEven_eq_iff, hdist,
    div_lt_div_iff₀ hpos two_pos, div_eq_div_iff hpos.ne' two_ne_zero, one_mul, lt_div_iff₀ two_pos,
    eq_div_iff two_ne_zero]

theorem roundTo_neg : roundTo p (-x) = -roundTo p x := by
  rw [roundTo, roundTo, lastPlace, lastPlace, abs_neg, neg_div, roundHalfEven_neg]
  push_cast
  ring

theorem roundTo_zero : roundTo p 0 = 0 := by
  have h : roundHalfEven 0 = 0 := roundHalfEven_of_near (by norm_num)
  rw [roundTo, zero_div, h, cast_zero, zero_mul]

theorem roundTo_mul_zpow (hx : x ≠ 0) (k : ℤ) : roundTo p (x * 2 ^ k) = roundTo p x * 2 ^ k := by
  have hplace : lastPlace p (x * 2 ^ k) = lastPlace p x + k := by
    obtain ⟨j, hlow, hhigh⟩ := exists_bounds (abs_pos.mpr hx)
    have hpos : (0 : ℚ) < 2 ^ k := by positivity
    have habs : lastPlace p (x * 2 ^ k) = lastPlace p (|x| * 2 ^ k) := by
      rw [lastPlace, lastPlace, abs_mul, abs_mul, abs_abs]
    have habs' : lastPlace p x = lastPlace p |x| := by rw [lastPlace, lastPlace, abs_abs]
    rw [habs, habs', lastPlace_of_bounds hlow hhigh, lastPlace_of_bounds (k := j + k)]
    · ring
    · rw [zpow_add₀ two_ne_zero]
      exact mul_le_mul_of_nonneg_right hlow hpos.le
    · rw [show j + k + 1 = (j + 1) + k by ring, zpow_add₀ two_ne_zero]
      exact mul_lt_mul_of_pos_right hhigh hpos
  rw [roundTo, roundTo, hplace, zpow_add₀ two_ne_zero, mul_div_mul_right _ _ (by positivity)]
  ring

/-- Rounding stays within the powers of two around a number. -/
theorem roundTo_bounds (hp : 1 ≤ p) {j : ℤ} (hlow : 2 ^ j ≤ x) (hhigh : x < 2 ^ (j + 1)) :
    2 ^ j ≤ roundTo p x ∧ roundTo p x ≤ 2 ^ (j + 1) := by
  obtain ⟨d, rfl⟩ : ∃ d : ℕ, p = d + 1 := ⟨p - 1, by omega⟩
  have hplace : lastPlace (d + 1) x = j - d := by
    rw [lastPlace_of_bounds hlow hhigh]
    push_cast
    ring
  have hunit : (0 : ℚ) < 2 ^ (j - (d : ℤ)) := by positivity
  have hsplit : ∀ i : ℕ, (2 : ℚ) ^ (j + i) = ((2 ^ (d + i) : ℤ) : ℚ) * 2 ^ (j - (d : ℤ)) := by
    intro i
    push_cast
    rw [← zpow_natCast, ← zpow_add₀ two_ne_zero]
    congr 1
    push_cast
    ring
  have hsplit₀ := hsplit 0
  have hsplit₁ := hsplit 1
  simp only [Nat.cast_zero, Nat.cast_one, add_zero] at hsplit₀ hsplit₁
  rw [roundTo, hplace, hsplit₀, hsplit₁]
  rw [hsplit₀, ← le_div_iff₀ hunit] at hlow
  rw [hsplit₁, ← div_lt_iff₀ hunit] at hhigh
  have hnear : |x / 2 ^ (j - (d : ℤ)) - roundHalfEven (x / 2 ^ (j - (d : ℤ)))| ≤ 1 / 2 :=
    (roundHalfEven_near _).elim le_of_lt (fun h => h.1.le)
  obtain ⟨hnear₁, hnear₂⟩ := abs_le.mp hnear
  generalize x / 2 ^ (j - (d : ℤ)) = y at *
  constructor
  · have hlt : ((2 ^ d : ℤ) : ℚ) < ((roundHalfEven y + 1 : ℤ) : ℚ) := by push_cast at *; linarith
    have hle : (2 ^ d : ℤ) ≤ roundHalfEven y := by
      have := cast_lt.mp hlt
      omega
    exact mul_le_mul_of_nonneg_right (cast_le.mpr hle) hunit.le
  · have hlt : (roundHalfEven y : ℚ) < ((2 ^ (d + 1) + 1 : ℤ) : ℚ) := by push_cast at *; linarith
    have hle : roundHalfEven y ≤ 2 ^ (d + 1) := by
      have := cast_lt.mp hlt
      omega
    exact mul_le_mul_of_nonneg_right (cast_le.mpr hle) hunit.le

theorem zpow_le_roundTo (hp : 1 ≤ p) (hk : 2 ^ k ≤ x) : 2 ^ k ≤ roundTo p x := by
  have hpos : 0 < x := lt_of_lt_of_le (by positivity) hk
  obtain ⟨j, hlow, hhigh⟩ := exists_bounds hpos
  have hkj : k ≤ j := by
    have h := lt_of_le_of_lt hk hhigh
    rw [zpow_lt_zpow_iff_right₀ (by norm_num)] at h
    omega
  exact le_trans (zpow_le_zpow_right₀ (by norm_num) hkj) (roundTo_bounds hp hlow hhigh).1

theorem roundTo_le_zpow (hp : 1 ≤ p) (hx : 0 < x) (hk : x < 2 ^ k) : roundTo p x ≤ 2 ^ k := by
  obtain ⟨j, hlow, hhigh⟩ := exists_bounds hx
  have hjk : j < k := (zpow_lt_zpow_iff_right₀ (by norm_num)).mp (lt_of_le_of_lt hlow hk)
  exact le_trans (roundTo_bounds hp hlow hhigh).2
    (zpow_le_zpow_right₀ (by norm_num) (by omega))

/-- A number of at most `p` bits is exact. -/
theorem roundTo_natCast_of_lt {m : ℕ} (hm : m < 2 ^ p) : roundTo p (m : ℚ) = m := by
  rcases Nat.eq_zero_or_pos m with rfl | hpos
  · exact_mod_cast roundTo_zero
  obtain ⟨d, hd⟩ : ∃ d : ℕ, p = Nat.log 2 m + 1 + d := by
    refine ⟨p - (Nat.log 2 m + 1), ?_⟩
    have hlog : Nat.log 2 m < p := Nat.log_lt_of_lt_pow hpos.ne' hm
    omega
  have hplace : lastPlace p (m : ℚ) = -d := by
    rw [lastPlace_of_bounds (k := Nat.log 2 m)]
    · rw [hd]
      push_cast
      ring
    · exact_mod_cast Nat.pow_log_le_self 2 hpos.ne'
    · exact_mod_cast Nat.lt_pow_succ_log_self (by decide) m
  have hscaled : (m : ℚ) = ((m * 2 ^ d : ℕ) : ℤ) * 2 ^ (-(d : ℤ)) := by
    push_cast
    rw [mul_assoc, zpow_neg, zpow_natCast, mul_inv_cancel₀ (by positivity), mul_one]
  have hround := (roundTo_eq_iff (n := ((m * 2 ^ d : ℕ) : ℤ)) hplace).mpr
    (Or.inl (by rw [← hscaled, sub_self, abs_zero]; positivity))
  rw [hround, ← hscaled]

theorem roundTo_natCast_of_le (hp : 1 ≤ p) {m : ℕ} (hm : m ≤ 2 ^ p) : roundTo p (m : ℚ) = m := by
  rcases hm.lt_or_eq with hlt | rfl
  · exact roundTo_natCast_of_lt hlt
  · have hone : roundTo p ((1 : ℕ) : ℚ) = (1 : ℕ) :=
      roundTo_natCast_of_lt (Nat.one_lt_two_pow (by omega))
    have hscale := roundTo_mul_zpow (p := p) one_ne_zero (p : ℤ)
    rw [Nat.cast_one] at hone
    rw [one_mul, hone, one_mul, zpow_natCast] at hscale
    push_cast
    exact hscale

theorem roundTo_ne_zero (hp : 1 ≤ p) (hx : x ≠ 0) : roundTo p x ≠ 0 := by
  have hpos : 0 < roundTo p |x| := by
    obtain ⟨k, hlow, -⟩ := exists_bounds (abs_pos.mpr hx)
    exact lt_of_lt_of_le (by positivity) (zpow_le_roundTo hp hlow)
  rcases abs_choice x with h | h
  · rw [h] at hpos
    exact hpos.ne'
  · rw [h, roundTo_neg] at hpos
    exact fun hzero => hpos.ne' (by rw [hzero, neg_zero])

/-- The number of low bits that do not fit `p` significant bits. -/
def excessBits (p X : ℕ) : ℕ := Nat.log 2 X - (p - 1)

/-- Cutting `X` off after `p` significant bits rounds it to nearest even: the
discarded part is below half of the last place, or half of it with an even kept part. -/
def TruncationRounds (p X : ℕ) : Prop :=
  2 * (X % 2 ^ excessBits p X) < 2 ^ excessBits p X ∨
    2 * (X % 2 ^ excessBits p X) = 2 ^ excessBits p X ∧ (X / 2 ^ excessBits p X) % 2 = 0

instance (p X : ℕ) : Decidable (TruncationRounds p X) := inferInstanceAs (Decidable (_ ∨ _))

theorem roundTo_eq_truncated_iff (hp : 1 ≤ p) (X : ℕ) :
    roundTo p (X : ℚ) = ((X / 2 ^ excessBits p X * 2 ^ excessBits p X : ℕ) : ℚ) ↔
      TruncationRounds p X := by
  unfold TruncationRounds
  have hlt := Nat.lt_pow_succ_log_self (by decide : 1 < 2) X
  rcases Nat.eq_zero_or_pos (excessBits p X) with hk | hk
  · have hbits : X < 2 ^ p := lt_of_lt_of_le hlt
      (Nat.pow_le_pow_right (by decide) (by unfold excessBits at hk; omega))
    rw [hk, pow_zero, Nat.div_one, mul_one, roundTo_natCast_of_lt hbits]
    simp [Nat.mod_one]
  · have hX : X ≠ 0 := by
      rintro rfl
      simp [excessBits] at hk
    have hplace : lastPlace p (X : ℚ) = (excessBits p X : ℕ) := by
      rw [lastPlace_of_bounds (k := Nat.log 2 X)]
      · unfold excessBits at hk ⊢
        omega
      · exact_mod_cast Nat.pow_log_le_self 2 hX
      · exact_mod_cast hlt
    have hsplit : (X : ℚ) = (X / 2 ^ excessBits p X : ℕ) * 2 ^ excessBits p X +
        (X % 2 ^ excessBits p X : ℕ) := by
      exact_mod_cast (Nat.div_add_mod' X (2 ^ excessBits p X)).symm
    have hdist : |(X : ℚ) - (X / 2 ^ excessBits p X : ℕ) * 2 ^ excessBits p X| =
        (X % 2 ^ excessBits p X : ℕ) := by
      nth_rewrite 1 [hsplit]
      rw [add_sub_cancel_left, abs_of_nonneg (by positivity)]
    have hiff := roundTo_eq_iff (n := ((X / 2 ^ excessBits p X : ℕ) : ℤ)) hplace
    rw [zpow_natCast, cast_natCast, hdist, lt_div_iff₀ two_pos, eq_div_iff two_ne_zero,
      even_coe_nat, Nat.even_iff] at hiff
    rw [Nat.cast_mul, Nat.cast_pow, Nat.cast_ofNat, hiff, mul_comm 2]
    norm_cast

end Liric.Lib
