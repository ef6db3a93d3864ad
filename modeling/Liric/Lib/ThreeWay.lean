import Mathlib.Order.Lattice

/-!
# Comparisons with three answers

A comparison answers `-1`, `0` or `1`. `ThreeWay` says that the answer is the order of
two elements of a linear order; it determines each answer, and it goes along strictly
monotone and strictly antitone maps.
-/
namespace Liric.Lib

variable {α β : Type} [LinearOrder α] [LinearOrder β]

/-- `c` tells how `x` stands to `y`. -/
def ThreeWay (c : Int) (x y : α) : Prop :=
  (c = -1 ∧ x < y) ∨ (c = 0 ∧ x = y) ∨ (c = 1 ∧ y < x)

namespace ThreeWay
variable {c : Int} {x y : α}

theorem less (h : x < y) : ThreeWay (-1) x y := .inl ⟨rfl, h⟩
theorem same (h : x = y) : ThreeWay 0 x y := .inr (.inl ⟨rfl, h⟩)
theorem greater (h : y < x) : ThreeWay 1 x y := .inr (.inr ⟨rfl, h⟩)

theorem eq_neg_one_iff (h : ThreeWay c x y) : c = -1 ↔ x < y := by
  obtain ⟨rfl, hlt⟩ | ⟨rfl, rfl⟩ | ⟨rfl, hgt⟩ := h
  · simp [hlt]
  · simp
  · simp [hgt.le]

theorem eq_zero_iff (h : ThreeWay c x y) : c = 0 ↔ x = y := by
  obtain ⟨rfl, hlt⟩ | ⟨rfl, rfl⟩ | ⟨rfl, hgt⟩ := h
  · simp [hlt.ne]
  · simp
  · simp [hgt.ne']

theorem eq_one_iff (h : ThreeWay c x y) : c = 1 ↔ y < x := by
  obtain ⟨rfl, hlt⟩ | ⟨rfl, rfl⟩ | ⟨rfl, hgt⟩ := h
  · simp [hlt.le]
  · simp
  · simp [hgt]

theorem range (h : ThreeWay c x y) : c = -1 ∨ c = 0 ∨ c = 1 := by
  obtain ⟨rfl, -⟩ | ⟨rfl, -⟩ | ⟨rfl, -⟩ := h
  · exact .inl rfl
  · exact .inr (.inl rfl)
  · exact .inr (.inr rfl)

theorem map {f : α → β} (hf : StrictMono f) (h : ThreeWay c x y) : ThreeWay c (f x) (f y) := by
  obtain ⟨rfl, hlt⟩ | ⟨rfl, rfl⟩ | ⟨rfl, hgt⟩ := h
  · exact less (hf hlt)
  · exact same rfl
  · exact greater (hf hgt)

/-- A map that turns the order round turns the answer round. -/
theorem map_anti {f : α → β} (hf : StrictAnti f) (h : ThreeWay c x y) :
    ThreeWay (-c) (f x) (f y) := by
  obtain ⟨rfl, hlt⟩ | ⟨rfl, rfl⟩ | ⟨rfl, hgt⟩ := h
  · exact greater (hf hlt)
  · exact same rfl
  · exact less (hf hgt)

end ThreeWay

end Liric.Lib
