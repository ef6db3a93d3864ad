import Mathlib.Data.Set.Insert

/-!
# Graphs that grow at their leaves

`R x y` says that `y` is a part of `x`. A leaf gets parts, all at once; a cycle comes up if and only
if one of them reaches the leaf. `Tame R K`: what does not reach `K` has no infinite descent, and
each member of `K` lies on a cycle.
-/
namespace Liric.Lib
open Relation

variable {A : Type*} {R : A → A → Prop} {p : A} {C : A → Prop}

/-- `R` with the parts `C` at `p`. -/
def withEdges (R : A → A → Prop) (p : A) (C : A → Prop) (x y : A) : Prop := R x y ∨ x = p ∧ C y

/-- There is no infinite descent from `x`. -/
def Founded (R : A → A → Prop) (x : A) : Prop := Acc (fun y x => R x y) x

variable {x : A}

/-- A cycle is an infinite descent. -/
theorem not_founded_of_cycle (h : TransGen R x x) : ¬ Founded R x := by
  intro hx
  have hacc : Acc (TransGen fun y x => R x y) x := Acc.transGen hx
  have hswap : TransGen (fun y x => R x y) x x := TransGen.swap x x h
  exact (irrefl_of_acc hacc) hswap
where
  irrefl_of_acc {r : A → A → Prop} {x : A} (h : Acc r x) : ¬ r x x := by
    intro hxx
    induction h with
    | intro x _ ih => exact ih x hxx hxx

theorem le_withEdges : R ≤ withEdges R p C := fun _ _ => Or.inl

theorem reach_withEdges {y : A} (h : ReflTransGen R x y) : ReflTransGen (withEdges R p C) x y :=
  ReflTransGen.mono le_withEdges x y h

theorem founded_extend (h : Founded R x)
    (hnew : ReflTransGen R x p → ∀ c, C c → Founded (withEdges R p C) c) :
    Founded (withEdges R p C) x := by
  induction h with
  | intro x _ ih =>
    refine Acc.intro x fun y hy => ?_
    rcases hy with hold | ⟨rfl, hy⟩
    · exact ih y hold fun hreach => hnew (ReflTransGen.head hold hreach)
    · exact hnew ReflTransGen.refl y hy

theorem founded_extend_away (h : Founded R x) (hp : ¬ ReflTransGen R x p) :
    Founded (withEdges R p C) x :=
  founded_extend h fun hreach => absurd hreach hp

structure Tame (R : A → A → Prop) (K : Set A) : Prop where
  cyclic : ∀ q ∈ K, TransGen R q q
  founded : ∀ x, (∀ q ∈ K, ¬ ReflTransGen R x q) → Founded R x

namespace Tame

variable {K : Set A}

theorem withEdges_cyclic (h : Tame R K) {q : A} (hq : q ∈ K) : TransGen (withEdges R p C) q q :=
  TransGen.mono le_withEdges q q (h.cyclic q hq)

/-- None of the parts reaches the leaf. -/
theorem extend_open (h : Tame R K) (hopen : ∀ c, C c → ¬ ReflTransGen R c p) :
    Tame (withEdges R p C) K where
  cyclic _ := h.withEdges_cyclic
  founded x hx := by
    have hold : Founded R x := h.founded x fun q hq hreach => hx q hq (reach_withEdges hreach)
    refine founded_extend hold fun hleaf c hc => ?_
    have hpart : Founded R c := by
      refine h.founded c fun q hq hreach => hx q hq ?_
      exact (reach_withEdges hleaf).trans (ReflTransGen.head (Or.inr ⟨rfl, hc⟩) (reach_withEdges hreach))
    exact founded_extend_away hpart (hopen c hc)

/-- One of them does. -/
theorem extend_closed (h : Tame R K) (hclosed : ∃ c, C c ∧ ReflTransGen R c p) :
    Tame (withEdges R p C) (insert p K) where
  cyclic q hq := by
    rcases Set.mem_insert_iff.1 hq with rfl | hq
    · obtain ⟨c, hc, hreach⟩ := hclosed
      exact TransGen.head' (Or.inr ⟨rfl, hc⟩) (reach_withEdges hreach)
    · exact h.withEdges_cyclic hq
  founded x hx := by
    have hold : Founded R x := by
      refine h.founded x fun q hq hreach => ?_
      exact hx q (Set.mem_insert_of_mem p hq) (reach_withEdges hreach)
    refine founded_extend_away hold fun hreach => ?_
    exact hx p (Set.mem_insert p K) (reach_withEdges hreach)

end Tame

/-- Without parts there is no descent. -/
theorem tame_of_leaves (h : ∀ x y, ¬ R x y) : Tame R ∅ where
  cyclic q hq := absurd hq (Set.notMem_empty q)
  founded x _ := Acc.intro x fun y hy => absurd hy (h x y)

end Liric.Lib
