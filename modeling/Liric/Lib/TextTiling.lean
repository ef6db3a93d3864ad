import Mathlib.Data.List.Basic

/-!
# Scanners

A scanner says of the rest of a text where the next piece is: behind how many elements, and how
long. The pieces of a run are in order, and what is between them are gaps.
-/
namespace Liric.Lib.TextTiling
open List

variable {α : Type} {Gap Last : List α → Prop}

/-- From position `pos` on the text is `slices`, each given by its start and its length, with gaps
in front of them and one at the end. -/
inductive Tiles (Gap Last : List α → Prop) : Nat → List α → List (Nat × Nat) → Prop where
  | done (pos : Nat) {gap : List α} : Last gap → Tiles Gap Last pos gap []
  | piece (pos : Nat) {gap piece rest : List α} {slices : List (Nat × Nat)} : Gap gap → piece ≠ [] →
      Tiles Gap Last (pos + gap.length + piece.length) rest slices →
      Tiles Gap Last pos (gap ++ piece ++ rest) ((pos + gap.length, piece.length) :: slices)

theorem Tiles.inside {pos : Nat} {text : List α} {slices : List (Nat × Nat)}
    (h : Tiles Gap Last pos text slices) :
    ∀ s ∈ slices, pos ≤ s.1 ∧ 0 < s.2 ∧ s.1 + s.2 ≤ pos + text.length := by
  induction h with
  | done pos hlast => simp
  | @piece pos gap piece rest slices hgap hpiece _ ih =>
    have hpos : 0 < piece.length := length_pos_iff.2 hpiece
    intro s hs
    simp only [length_append]
    rcases mem_cons.1 hs with rfl | hs
    · simp only
      omega
    · have hrest := ih s hs
      omega

/-- Slices are in order and do not overlap. -/
theorem Tiles.ordered {pos : Nat} {text : List α} {slices : List (Nat × Nat)}
    (h : Tiles Gap Last pos text slices) :
    slices.Pairwise fun s t => s.1 + s.2 ≤ t.1 := by
  induction h with
  | done pos hlast => exact List.Pairwise.nil
  | piece pos hgap hpiece hrest ih =>
    refine pairwise_cons.2 ⟨fun t ht => ?_, ih⟩
    exact (hrest.inside t ht).1

/-- `step` finds the next piece of a text that is not a gap. -/
structure Scanner (Gap Last : List α → Prop) where
  step : List α → Option (Nat × Nat)
  ends : ∀ {text}, step text = none → Last text
  gap : ∀ {text g n}, step text = some (g, n) → Gap (text.take g)
  proper : ∀ {text g n}, step text = some (g, n) → 0 < n ∧ g + n ≤ text.length

namespace Scanner
variable (sc : Scanner Gap Last)

/-- The slices of a text that begins at `pos`. -/
def slices : (fuel pos : Nat) → List α → Option (List (Nat × Nat))
  | 0, _, _ => none
  | fuel + 1, pos, text =>
    match sc.step text with
    | none => some []
    | some (g, n) => (slices fuel (pos + g + n) (text.drop (g + n))).map ((pos + g, n) :: ·)

/-- More fuel than the text is long is enough. -/
theorem slices_ends {fuel : Nat} {text : List α} (h : text.length < fuel) (pos : Nat) :
    ∃ found, sc.slices fuel pos text = some found := by
  induction fuel generalizing pos text with
  | zero => omega
  | succ fuel ih =>
    rw [slices]
    cases hstep : sc.step text with
    | none => exact ⟨[], rfl⟩
    | some found =>
      obtain ⟨g, n⟩ := found
      have hproper := sc.proper hstep
      have hshort : (text.drop (g + n)).length < fuel := by
        rw [length_drop]
        omega
      obtain ⟨later, hlater⟩ := ih hshort (pos + g + n)
      exact ⟨(pos + g, n) :: later, by simp only [hlater, Option.map_some]⟩

theorem slices_tile {fuel pos : Nat} {text : List α} {found : List (Nat × Nat)}
    (h : sc.slices fuel pos text = some found) : Tiles Gap Last pos text found := by
  induction fuel generalizing pos text found with
  | zero => cases h
  | succ fuel ih =>
    rw [slices] at h
    cases hstep : sc.step text with
    | none =>
      rw [hstep] at h
      cases h
      exact .done pos (sc.ends hstep)
    | some slice =>
      obtain ⟨g, n⟩ := slice
      rw [hstep] at h
      obtain ⟨later, hlater, rfl⟩ := Option.map_eq_some_iff.1 h
      obtain ⟨hn, hfits⟩ := sc.proper hstep
      have hgap : (text.take g).length = g := by
        rw [length_take]
        omega
      have hpiece : ((text.drop g).take n).length = n := by
        rw [length_take, length_drop]
        omega
      have htext : text.take g ++ (text.drop g).take n ++ text.drop (g + n) = text := by
        rw [append_assoc, ← drop_drop, take_append_drop, take_append_drop]
      have htiles := Tiles.piece pos (sc.gap hstep) (length_pos_iff.1 (hpiece.symm ▸ hn))
        (by rw [hgap, hpiece]; exact ih hlater)
      rwa [htext, hgap, hpiece] at htiles

end Scanner

end Liric.Lib.TextTiling
