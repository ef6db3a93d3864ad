import Mathlib.Data.Fintype.EquivFin

/-!
# Two runs of one list

The elements with a property are put before those without it, each kind in the
order it had: where every element goes, and that nothing else goes there.
-/
namespace Liric.Lib

variable {α : Type} (p : α → Bool)

/-- The place of element `i` when the elements with `p` come first. -/
def runPlace (l : List α) (i : Nat) : Nat :=
  if l[i]?.any p then (l.take i).countP p else l.countP p + (l.take i).countP (fun a => !p a)

variable {l : List α} {i : Nat}

theorem runPlace_true {p : α → Bool} (h : i < l.length) (hp : p l[i] = true) :
    runPlace p l i = (l.take i).countP p := by
  simp [runPlace, h, hp]

theorem runPlace_false {p : α → Bool} (h : i < l.length)
    (hp : p l[i] = false) : runPlace p l i = l.countP p + (l.take i).countP (fun a => !p a) := by
  simp [runPlace, h, hp]

/-- One more element of the kind has been counted behind an element of the kind. -/
theorem countP_take_lt {q : α → Bool} {j : Nat} (hi : i < l.length) (hq : q l[i] = true)
    (hij : i < j) : (l.take i).countP q < (l.take j).countP q := by
  have hsucc : (l.take (i + 1)).countP q = (l.take i).countP q + 1 := by
    rw [List.take_add_one, List.getElem?_eq_getElem hi, List.countP_append]
    simp [hq]
  have hsub : (l.take (i + 1)).countP q ≤ (l.take j).countP q :=
    (List.take_sublist_take_left (by omega)).countP_le
  omega

theorem countP_take_lt_all {q : α → Bool} (hi : i < l.length)
    (hq : q l[i] = true) : (l.take i).countP q < l.countP q := by
  have h := countP_take_lt hi hq hi
  rwa [List.take_length] at h

theorem countP_split (l : List α) :
    l.countP p + l.countP (fun a => !p a) = l.length := by
  have h := List.length_eq_countP_add_countP p (l := l)
  simpa using h.symm

theorem runPlace_lt (h : i < l.length) : runPlace p l i < l.length := by
  have hsplit := countP_split p l
  cases hp : p l[i] with
  | true =>
    have hlt := countP_take_lt_all h hp
    rw [runPlace_true h hp]
    omega
  | false =>
    have hlt := countP_take_lt_all (q := fun a => !p a) h (by simp [hp])
    rw [runPlace_false h hp]
    omega

/-- The elements with the property fill exactly the first places. -/
theorem runPlace_lt_countP_iff (h : i < l.length) :
    runPlace p l i < l.countP p ↔ p l[i] = true := by
  cases hp : p l[i] with
  | true =>
    rw [runPlace_true h hp]
    simpa using countP_take_lt_all h hp
  | false =>
    rw [runPlace_false h hp]
    simp

theorem runPlace_inj {j : Nat} (hi : i < l.length) (hj : j < l.length)
    (h : runPlace p l i = runPlace p l j) : i = j := by
  have hkind : p l[i] = p l[j] := by
    have hiffi := runPlace_lt_countP_iff p hi
    have hiffj := runPlace_lt_countP_iff p hj
    rw [h] at hiffi
    exact Bool.eq_iff_iff.mpr (hiffi.symm.trans hiffj)
  by_contra hne
  cases hp : p l[i] with
  | true =>
    rw [runPlace_true hi hp, runPlace_true hj (by rw [← hkind, hp])] at h
    rcases Nat.lt_or_gt_of_ne hne with hlt | hgt
    · have := countP_take_lt hi hp hlt
      omega
    · have := countP_take_lt (q := p) hj (by rw [← hkind, hp]) hgt
      omega
  | false =>
    rw [runPlace_false hi hp, runPlace_false hj (by rw [← hkind, hp])] at h
    rcases Nat.lt_or_gt_of_ne hne with hlt | hgt
    · have := countP_take_lt (q := fun a => !p a) hi (by simp [hp]) hlt
      omega
    · have := countP_take_lt (q := fun a => !p a) hj (by simp [← hkind, hp]) hgt
      omega

/-- Every place is taken. -/
theorem runPlace_surj {k : Nat} (h : k < l.length) : ∃ i < l.length, runPlace p l i = k := by
  have hinj : Function.Injective
      (fun i : Fin l.length => (⟨runPlace p l i, runPlace_lt p i.isLt⟩ : Fin l.length)) := by
    intro i j hij
    exact Fin.ext (runPlace_inj p i.isLt j.isLt (Fin.mk.inj hij))
  obtain ⟨i, hi⟩ := Finite.surjective_of_injective hinj ⟨k, h⟩
  exact ⟨i, i.isLt, congrArg Fin.val hi⟩

end Liric.Lib
