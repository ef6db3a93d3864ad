import Mathlib.Data.BitVec

/-!
# Mask padding of offsets

`padUp v a` is the value of the usual expression `(v + a - 1) & ~(a - 1)` when
nothing wraps. For a power of two it is the next multiple of `a`; for any other
`a` it is only known not to go below `v`, which is all that a layout built from
it needs in order to keep its parts apart.
-/
namespace Liric.Lib
open BitVec

def padUp (v a : Nat) : Nat := (v + a - 1) - ((v + a - 1) &&& (a - 1))

theorem le_padUp {a : Nat} (v : Nat) (ha : 1 ≤ a) : v ≤ padUp v a := by
  have hmask : (v + a - 1) &&& (a - 1) ≤ a - 1 := Nat.and_le_right
  unfold padUp
  omega

theorem padUp_le (v a : Nat) : padUp v a ≤ v + a - 1 := Nat.sub_le _ _

/-- Padding to a power of two gives a multiple of it. -/
theorem padUp_mod (v n : Nat) : padUp v (2 ^ n) % 2 ^ n = 0 := by
  have hsplit := Nat.div_add_mod (v + 2 ^ n - 1) (2 ^ n)
  have hpad : padUp v (2 ^ n) = 2 ^ n * ((v + 2 ^ n - 1) / 2 ^ n) := by
    rw [padUp, Nat.and_two_pow_sub_one_eq_mod]
    omega
  rw [hpad, Nat.mul_mod_right]

variable {w : Nat}

/-- A padded value below `2 ^ w` leaves no room for the sum inside it to wrap:
the mask has no bit at `w` or above to clear. -/
theorem add_lt_of_padUp_lt {v a : Nat} (ha : a ≤ 2 ^ w) (hpad : padUp v a < 2 ^ w) :
    v + a - 1 < 2 ^ w := by
  by_contra hge
  have hpos : 0 < 2 ^ w := Nat.two_pow_pos w
  have hlow : (v + a - 1) &&& (a - 1) ≤ (v + a - 1) % 2 ^ w := by
    calc (v + a - 1) &&& (a - 1)
        = ((v + a - 1) &&& (a - 1)) % 2 ^ w :=
          (Nat.mod_eq_of_lt (Nat.lt_of_le_of_lt Nat.and_le_right (by omega))).symm
      _ = ((v + a - 1) % 2 ^ w) &&& ((a - 1) % 2 ^ w) := Nat.and_mod_two_pow
      _ ≤ (v + a - 1) % 2 ^ w := Nat.and_le_left
  have hsplit := Nat.mod_add_div (v + a - 1) (2 ^ w)
  have hquot : 1 ≤ (v + a - 1) / 2 ^ w := (Nat.one_le_div_iff hpos).mpr (Nat.le_of_not_lt hge)
  have hbig : 2 ^ w ≤ 2 ^ w * ((v + a - 1) / 2 ^ w) := Nat.le_mul_of_pos_right _ hquot
  unfold padUp at hpad
  omega

/-- Clearing the bits of a mask subtracts the masked part. -/
theorem toNat_and_not (x m : BitVec w) : (x &&& ~~~m).toNat = x.toNat - (x.toNat &&& m.toNat) := by
  have hbits : ∀ i (hi : i < w),
      ((x &&& m) &&& (x &&& ~~~m))[i] = false ∧ ((x &&& m) ||| (x &&& ~~~m))[i] = x[i] := by
    intro i hi
    simp only [getElem_or, getElem_and, getElem_not]
    cases x[i] <;> cases m[i] <;> decide
  have hsum : (x &&& m) + (x &&& ~~~m) = x := by
    rw [add_eq_or_of_and_eq_zero _ _ (eq_of_getElem_eq fun i hi => by simpa using (hbits i hi).1)]
    exact eq_of_getElem_eq fun i hi => (hbits i hi).2
  have hnat : (x &&& m).toNat + (x &&& ~~~m).toNat = x.toNat := by
    rw [← toNat_add_of_and_eq_zero
      (eq_of_getElem_eq fun i hi => by simpa using (hbits i hi).1), hsum]
  rw [toNat_and] at hnat
  omega

/-- The machine expression computes `padUp` as long as the result fits. -/
theorem toNat_mask_padUp (v a : BitVec w) (ha : 1 ≤ a.toNat)
    (hfit : padUp v.toNat a.toNat < 2 ^ w) :
    ((v + a - 1#w) &&& ~~~(a - 1#w)).toNat = padUp v.toNat a.toNat := by
  have hwide : v.toNat + a.toNat - 1 < 2 ^ w := add_lt_of_padUp_lt (Nat.le_of_lt a.isLt) hfit
  have hw : 0 < w := by
    rcases Nat.eq_zero_or_pos w with rfl | hpos
    · have := a.isLt
      omega
    · exact hpos
  have hone : (1#w).toNat = 1 := toNat_one hw
  have hmask : (a - 1#w).toNat = a.toNat - 1 := by
    rw [toNat_sub_of_le (by simpa [le_def, hone] using ha), hone]
  have hsum : (v + a - 1#w).toNat = v.toNat + a.toNat - 1 := by
    rw [BitVec.sub_eq_add_neg, BitVec.add_assoc, ← BitVec.sub_eq_add_neg, toNat_add, hmask]
    rw [Nat.mod_eq_of_lt (by omega)]
    omega
  rw [toNat_and_not, hsum, hmask]
  rfl

/-- Wrapping does not matter to a multiple of a power of two. -/
theorem two_pow_dvd_mask {k : Nat} (v a : BitVec w) (ha : a.toNat = 2 ^ k) :
    2 ^ k ∣ ((v + a - 1#w) &&& ~~~(a - 1#w)).toNat := by
  have hpos : 0 < 2 ^ k := Nat.two_pow_pos k
  have hlt : 2 ^ k < 2 ^ w := ha ▸ a.isLt
  have hone : (1#w).toNat = 1 := toNat_one (Nat.pos_of_ne_zero fun hw => by
    subst hw
    omega)
  have hmask : (a - 1#w).toNat = 2 ^ k - 1 := by
    rw [toNat_sub_of_le (by rw [le_def, hone, ha]; omega), hone, ha]
  rw [toNat_and_not, hmask, Nat.and_two_pow_sub_one_eq_mod]
  exact Nat.dvd_sub_mod _

end Liric.Lib
