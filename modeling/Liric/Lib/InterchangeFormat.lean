import Mathlib.Tactic.Positivity
import Mathlib.Tactic.NormNum

/-!
# Binary interchange formats

A bit pattern is a sign bit, `expBits` exponent bits and `fracBits` fraction bits,
from the top; the exponent is biased and the leading bit of a normal number is not
stored. `parts` puts the fields together again.
-/
namespace Liric.Lib

structure FloatFormat where
  expBits : Nat
  fracBits : Nat

namespace FloatFormat

/-- The formats of `double` and `float`. -/
def binary64 : FloatFormat := ⟨11, 52⟩
def binary32 : FloatFormat := ⟨8, 23⟩

variable (F : FloatFormat)

def bias : Int := 2 ^ (F.expBits - 1) - 1
def signField (bits : Nat) : Bool := decide (2 ^ (F.expBits + F.fracBits) ≤ bits)
def expField (bits : Nat) : Nat := bits / 2 ^ F.fracBits % 2 ^ F.expBits
def fracField (bits : Nat) : Nat := bits % 2 ^ F.fracBits

def IsFinite (bits : Nat) : Prop := F.expField bits ≠ 2 ^ F.expBits - 1

/-- Smaller than every normal number, and not zero. -/
def Subnormal (bits : Nat) : Prop := F.expField bits = 0 ∧ F.fracField bits ≠ 0

instance (bits : Nat) : Decidable (F.IsFinite bits) := inferInstanceAs (Decidable (_ ≠ _))
instance (bits : Nat) : Decidable (F.Subnormal bits) := inferInstanceAs (Decidable (_ ∧ _))

def size (bits : Nat) : ℚ :=
  if F.expField bits = 0 then F.fracField bits * 2 ^ (1 - F.bias - F.fracBits)
  else (2 ^ F.fracBits + F.fracField bits : Nat) * 2 ^ (F.expField bits - F.bias - F.fracBits)

/-- The rational a finite pattern stands for. -/
def value (bits : Nat) : ℚ := if F.signField bits then -F.size bits else F.size bits

variable {F}

variable (F) in
theorem bias_nonneg : 0 ≤ F.bias := by
  have hpos : (1 : Int) ≤ 2 ^ (F.expBits - 1) := one_le_pow₀ (by norm_num)
  unfold bias
  omega

theorem fracField_lt (bits : Nat) : F.fracField bits < 2 ^ F.fracBits :=
  Nat.mod_lt _ (Nat.two_pow_pos _)

theorem expField_lt (bits : Nat) : F.expField bits < 2 ^ F.expBits :=
  Nat.mod_lt _ (Nat.two_pow_pos _)

/-- A pattern is its three fields. -/
theorem parts_eq {bits : Nat} (h : bits < 2 ^ (F.expBits + F.fracBits + 1)) :
    (if F.signField bits then 1 else 0) * 2 ^ (F.expBits + F.fracBits) +
      F.expField bits * 2 ^ F.fracBits + F.fracField bits = bits := by
  have hlow : F.expField bits * 2 ^ F.fracBits + F.fracField bits =
      bits % 2 ^ (F.expBits + F.fracBits) := by
    rw [expField, fracField, Nat.add_comm F.expBits, pow_add, Nat.mod_mul,
      Nat.mul_comm (2 ^ F.fracBits), Nat.add_comm]
  have hsign : (if F.signField bits then 1 else 0) = bits / 2 ^ (F.expBits + F.fracBits) := by
    unfold signField
    by_cases hle : 2 ^ (F.expBits + F.fracBits) ≤ bits
    · rw [if_pos (decide_eq_true hle)]
      refine (Nat.div_eq_of_lt_le ?_ ?_).symm
      · rwa [Nat.one_mul]
      · rwa [Nat.mul_comm, ← pow_succ]
    · rw [if_neg (by simpa using hle), Nat.div_eq_of_lt (not_le.1 hle)]
  rw [hsign, Nat.add_assoc, hlow, Nat.mul_comm]
  exact Nat.div_add_mod _ _

end FloatFormat
end Liric.Lib
