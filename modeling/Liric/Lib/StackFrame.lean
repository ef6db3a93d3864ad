import Mathlib.Logic.Function.Basic

/-!
# Frames that grow downwards

A frame hands out regions below a base. The next region starts where the last one ended,
after rounding, so regions that were handed out never overlap, and an owner who takes a
new region gives up the old one.
-/
namespace Liric.Lib
open Function

/-- The next multiple of `align`. -/
def roundUp (value align : Nat) : Nat :=
  if align ≤ 1 then value else (value + align - 1) / align * align

theorem le_roundUp (value align : Nat) : value ≤ roundUp value align := by
  unfold roundUp
  split
  · exact Nat.le_refl value
  · have hdiv := Nat.div_add_mod (value + align - 1) align
    have hmod := Nat.mod_lt (value + align - 1) (by omega : 0 < align)
    rw [Nat.mul_comm] at hdiv
    omega

theorem dvd_roundUp (value : Nat) {align : Nat} (hpos : 0 < align) :
    align ∣ roundUp value align := by
  unfold roundUp
  split
  · obtain rfl : align = 1 := by omega
    exact Nat.one_dvd value
  · exact Nat.dvd_mul_left align _

/-- What is not zero is at least one step after rounding. -/
theorem align_le_roundUp {value align : Nat} (hvalue : 0 < value) :
    align ≤ roundUp value align := by
  by_cases halign : align = 0
  · omega
  · have hpos : 0 < roundUp value align := Nat.lt_of_lt_of_le hvalue (le_roundUp value align)
    exact Nat.le_of_dvd hpos (dvd_roundUp value (by omega))

/-- `size` bytes, the lowest of them `depth` below the base. -/
structure Region where
  depth : Nat
  size : Nat
  deriving DecidableEq

def Region.Apart (r s : Region) : Prop := r.depth + s.size ≤ s.depth ∨ s.depth + r.size ≤ r.depth

theorem Region.Apart.symm {r s : Region} (h : r.Apart s) : s.Apart r := Or.symm h

/-- The regions in use, each inside the `top` bytes below the base. -/
structure StackFrame (κ : Type) where
  top : Nat
  region : κ → Option Region
  inside : ∀ {k r}, region k = some r → r.size ≤ r.depth ∧ r.depth ≤ top
  apart : ∀ {k l r s}, k ≠ l → region k = some r → region l = some s → r.Apart s

namespace StackFrame
variable {κ : Type}

def empty : StackFrame κ where
  top := 0
  region _ := none
  inside h := by cases h
  apart _ h := by cases h

variable [DecidableEq κ] (f : StackFrame κ)

/-- A new region for `k` below all that was handed out. -/
def place (k : κ) (size align : Nat) : StackFrame κ where
  top := roundUp f.top align + size
  region := update f.region k (some ⟨roundUp f.top align + size, size⟩)
  inside := by
    intro l r h
    by_cases hl : l = k
    · rw [hl, update_self] at h
      cases h
      exact ⟨Nat.le_add_left .., Nat.le_refl _⟩
    · rw [update_of_ne hl] at h
      have hold := f.inside h
      have hround := le_roundUp f.top align
      exact ⟨hold.1, by omega⟩
  apart := by
    have hbelow : ∀ {l : κ} {r : Region}, f.region l = some r →
        r.Apart ⟨roundUp f.top align + size, size⟩ := by
      intro l r h
      have hold := f.inside h
      have hround := le_roundUp f.top align
      exact .inl (by simp only []; omega)
    intro l m r s hne hl hm
    by_cases hk : l = k
    · subst hk
      rw [update_self] at hl
      rw [update_of_ne (Ne.symm hne)] at hm
      cases hl
      exact (hbelow hm).symm
    · rw [update_of_ne hk] at hl
      by_cases hk' : m = k
      · subst hk'
        rw [update_self] at hm
        cases hm
        exact hbelow hl
      · rw [update_of_ne hk'] at hm
        exact f.apart hne hl hm

@[simp] theorem top_place (k : κ) (size align : Nat) :
    (f.place k size align).top = roundUp f.top align + size := rfl

theorem top_le_place (k : κ) (size align : Nat) : f.top ≤ (f.place k size align).top :=
  Nat.le_trans (le_roundUp f.top align) (Nat.le_add_right ..)

@[simp] theorem region_place_self (k : κ) (size align : Nat) :
    (f.place k size align).region k = some ⟨roundUp f.top align + size, size⟩ :=
  update_self ..

theorem region_place_ne {k l : κ} (size align : Nat) (hne : l ≠ k) :
    (f.place k size align).region l = f.region l :=
  update_of_ne hne ..

/-- The region of `k` unless it is too small, then a new one. -/
def reserve (k : κ) (size : Nat) (least align : Nat) : StackFrame κ :=
  if (f.region k).any fun r => size ≤ r.size then f else f.place k (max size least) align

theorem top_le_reserve (k : κ) (size least align : Nat) :
    f.top ≤ (f.reserve k size least align).top := by
  unfold reserve
  split
  · exact Nat.le_refl f.top
  · exact top_le_place ..

end StackFrame

end Liric.Lib
